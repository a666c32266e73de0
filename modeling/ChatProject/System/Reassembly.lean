import ChatProject.Client.ClientNet
import ChatProject.Server.ServerNet

/-!
# The two framers agree

The server finds the frames of a stream by shifting a buffer, the client by reading exactly as many
bytes as the next frame has.  TCP may cut the stream anywhere, and differently at the two ends.
`framers_agree` compares them on one stream: both see its segmentation into frames.

* `serverReads` — `HandleClientData` called again and again while there is something to read, with
  an `onMsg` that writes down the frames it is handed.
* `clientReads` — one `client_net_recv_msg` after the other.
-/

set_option autoImplicit false

namespace ChatProject

open Framing

/-! ## The server -/

/-- At most `n` calls of `HandleClientData`, each made when there is something to read: the slot,
what is still to come, and the frames handed to `onMsg`. -/
def serverReads : Nat → ClientState → FdTables → Inbox UInt8 → List (List UInt8) →
    ClientState × Inbox UInt8 × List (List UInt8)
  | 0, c, _, x, frames => (c, x, frames)
  | n + 1, c, t, x, frames =>
    if x.bytes = [] then (c, x, frames)
    else
      match handleClientData (fun _ msg frames => frames ++ [msg]) (fun _ frames => frames) c t x
        frames with
      | (c, t, x, frames) => serverReads n c t x frames

theorem foldl_concat (frames done : List (List UInt8)) :
    frames.foldl (fun done msg => done ++ [msg]) done = done ++ frames := by
  induction frames generalizing done with
  | nil => rw [List.foldl_nil, List.append_nil]
  | cons f frames ih => rw [List.foldl_cons, ih, List.append_assoc, List.singleton_append]

/-- Reading goes on where it stopped: what has been handed over and what is left in the slot stay
the segmentation of what has been read. -/
theorem serverReads_spec (n : Nat) {c : ClientState} (hc : c.Settled) (t : FdTables)
    (x : Inbox UInt8) {s : List UInt8} {frames : List (List UInt8)}
    (hseg : tlv.Segmentation s frames c.data) :
    ∃ c' y frames' read, serverReads n c t x frames = (c', y, frames') ∧ c'.Settled ∧
      x.bytes = read ++ y.bytes ∧ tlv.Segmentation (s ++ read) frames' c'.data ∧
      (x.bytes.length ≤ n → y.bytes = []) := by
  induction n generalizing c t x s frames with
  | zero =>
    refine ⟨c, x, frames, [], rfl, hc, rfl, by rwa [List.append_nil], fun h => ?_⟩
    exact List.length_eq_zero_iff.mp (Nat.le_zero.mp h)
  | succ n ih =>
    by_cases hend : x.bytes = []
    · refine ⟨c, x, frames, [], by rw [serverReads, if_pos hend], hc, rfl, ?_, fun _ => hend⟩
      rwa [List.append_nil]
    · rw [serverReads, if_neg hend]
      obtain ⟨hx, -⟩ | ⟨chunk, y, new, c₁, hchunk, hx, hr, -, hc₁, hnew⟩ :=
        handleClientData_cases (fun _ msg frames => frames ++ [msg]) (fun _ frames => frames) hc t x
          frames
      · exact absurd hx hend
      · rw [hr, foldl_concat]
        obtain ⟨c', z, frames', read, hreads, hc', hy, hseg', hlen⟩ := ih hc₁ t y (hseg.append hnew)
        refine ⟨c', z, frames', chunk ++ read, hreads, hc', ?_, ?_, fun h => hlen ?_⟩
        · rw [hx, hy, List.append_assoc]
        · rwa [← List.append_assoc]
        · have hpos : 0 < chunk.length := List.length_pos_iff.mpr hchunk
          rw [hx, List.length_append] at h
          omega

/-! ## The client -/

/-- `n` successive calls of `client_net_recv_msg`: what they return, and what is still to come. -/
def clientReads (fd : Int) : Nat → Inbox UInt8 →
    List (Option (List UInt8 × Nat)) × Inbox UInt8
  | 0, x => ([], x)
  | n + 1, x =>
    match recvMsg fd x with
    | (r, x) => match clientReads fd n x with
      | (rs, x) => (r :: rs, x)

/-- `*out_len` for a frame: `2 + L`. -/
def outLen (f : List UInt8) : Nat := 2 + (f.getD 1 0).toNat

theorem length_of_isFrame {f : List UInt8} (h : tlv.IsFrame f) : f.length = outLen f := by
  obtain ⟨t, l, payload, rfl, hl⟩ := exists_of_isFrame h
  simp only [outLen, List.length_cons, List.getD_cons_succ, List.getD_cons_zero]
  omega

/-- While there are frames, each call returns the next one and leaves the rest. -/
theorem clientReads_frames {fd : Int} (hfd : 0 ≤ fd) (frames : List (List UInt8))
    {rest : List UInt8} {x : Inbox UInt8} (hx : x.bytes = frames.flatten ++ rest)
    (hf : ∀ f ∈ frames, tlv.IsFrame f) :
    ∃ y, clientReads fd frames.length x = (frames.map fun f => some (f, outLen f), y) ∧
      y.bytes = rest := by
  induction frames generalizing x with
  | nil => exact ⟨x, rfl, hx⟩
  | cons f frames ih =>
    have hframe := hf f List.mem_cons_self
    rw [List.flatten_cons, List.append_assoc] at hx
    obtain ⟨y, hy, hr⟩ := recvMsg_of_frame hfd hframe hx
    obtain ⟨z, hz, hrest⟩ := ih hy fun g hg => hf g (List.mem_cons_of_mem _ hg)
    refine ⟨z, ?_, hrest⟩
    rw [List.length_cons, clientReads, hr, length_of_isFrame hframe]
    simp only [hz, List.map_cons]

/-- At the end of the stream every call fails. -/
theorem clientReads_end {fd : Int} (hfd : 0 ≤ fd) (n : Nat) {x : Inbox UInt8}
    (hx : tlv.Incomplete x.bytes) : (clientReads fd n x).1 = List.replicate n none := by
  induction n generalizing x with
  | zero => rfl
  | succ n ih =>
    obtain ⟨y, hy, hr⟩ := recvMsg_of_incomplete hfd hx
    rw [clientReads, hr]
    simp only [List.replicate_succ]
    rw [ih (hy ▸ incomplete_nil)]

theorem clientReads_add (fd : Int) (m n : Nat) (x : Inbox UInt8) :
    clientReads fd (m + n) x =
      ((clientReads fd m x).1 ++ (clientReads fd n (clientReads fd m x).2).1,
        (clientReads fd n (clientReads fd m x).2).2) := by
  induction m generalizing x with
  | zero => rw [Nat.zero_add, clientReads, List.nil_append]
  | succ m ih =>
    rw [Nat.succ_add, clientReads, clientReads]
    simp only [ih, List.cons_append]

/-! ## Both -/

/-- **The two framers agree.**  For every stream and any two ways to cut it into pieces, one for
each end: a slot that starts out empty hands exactly the frames of the stream to `onMsg`, in order,
and is left with the incomplete suffix; successive `client_net_recv_msg` calls return exactly the
same frames with `*out_len = 2 + L`, and the first call to fail is the one that finds nothing but
this suffix. -/
theorem framers_agree {c : ClientState} (hc : c.len = 0) (t : FdTables) {fd : Int} (hfd : 0 ≤ fd)
    (x y : Inbox UInt8) (hxy : y.bytes = x.bytes) :
    ∃ frames rest, tlv.Segmentation x.bytes frames rest ∧
      (∀ frames' rest', tlv.Segmentation x.bytes frames' rest' → frames' = frames ∧ rest' = rest) ∧
      (∀ n, x.bytes.length ≤ n → ∃ c' x', serverReads n c t x [] = (c', x', frames) ∧
        x'.bytes = [] ∧ c'.data = rest ∧ c'.len = rest.length) ∧
      (∀ n ≤ frames.length, ∃ y',
        clientReads fd n y = ((frames.take n).map fun f => some (f, outLen f), y') ∧
          y'.bytes = (frames.drop n).flatten ++ rest) ∧
      (∀ n, (clientReads fd (frames.length + n) y).1 =
        (frames.map fun f => some (f, outLen f)) ++ List.replicate n none) := by
  have hsettled := ClientState.settled_of_empty hc
  have hstart : tlv.Segmentation [] [] c.data := by
    rw [ClientState.data, hc, List.take_zero]
    exact .nil incomplete_nil
  have hserver : ∀ n, x.bytes.length ≤ n →
      ∃ c' x' frames, serverReads n c t x [] = (c', x', frames) ∧
      x'.bytes = [] ∧ c'.Settled ∧ tlv.Segmentation x.bytes frames c'.data := by
    intro n hn
    obtain ⟨c', x', frames, read, hreads, hc', hx, hseg, hend⟩ :=
      serverReads_spec n hsettled t x hstart
    rw [hend hn, List.append_nil] at hx
    rw [List.nil_append, ← hx] at hseg
    exact ⟨c', x', frames, hreads, hend hn, hc', hseg⟩
  obtain ⟨c₀, -, frames, -, -, -, hseg⟩ := hserver _ (Nat.le_refl _)
  have hy : y.bytes = frames.flatten ++ c₀.data := hxy.trans hseg.flatten
  refine ⟨frames, c₀.data, hseg, fun _ _ h => h.unique hseg, fun n hn => ?_, fun n hn => ?_,
    fun n => ?_⟩
  · obtain ⟨c', x', frames', hreads, hx', hc', hseg'⟩ := hserver n hn
    obtain ⟨rfl, hrest⟩ := hseg'.unique hseg
    refine ⟨c', x', hreads, hx', hrest, ?_⟩
    rw [← hrest, ClientState.length_data hc'.len_le]
  · -- the first `n` frames are a segmentation of their own, with everything else behind them
    have hsplit : y.bytes = (frames.take n).flatten ++ ((frames.drop n).flatten ++ c₀.data) := by
      rw [← List.append_assoc, ← List.flatten_append, List.take_append_drop, hy]
    obtain ⟨y', hreads, hy'⟩ := clientReads_frames hfd (frames.take n) hsplit
      fun f hf => hseg.frames f (List.mem_of_mem_take hf)
    rw [List.length_take, Nat.min_eq_left hn] at hreads
    exact ⟨y', hreads, hy'⟩
  · obtain ⟨y', hreads, hy'⟩ := clientReads_frames hfd frames hy hseg.frames
    rw [clientReads_add, hreads, clientReads_end hfd n (hy' ▸ hseg.rest)]

/-- Two LOGOUT frames and the first byte of a third, which the server gets in three pieces and the
client in two. -/
theorem framers_agree_logouts :
    ∃ c' x', serverReads 5 (ClientState.free.install 7) ⟨fun _ => false, fun _ => false⟩
        ⟨[[5], [0, 5, 0], [5]], by decide, false⟩ [] = (c', x', [[5, 0], [5, 0]]) ∧
      c'.data = [5] ∧
      (clientReads 3 3 ⟨[[5, 0, 5], [0, 5]], by decide, false⟩).1 =
        [some ([5, 0], 2), some ([5, 0], 2), none] := by
  have hseg : tlv.Segmentation [5, 0, 5, 0, 5] [[5, 0], [5, 0]] [5] := by
    refine ⟨rfl, fun f hf => ?_, fun n hn => ?_⟩
    · obtain rfl : f = [5, 0] := by simpa using hf
      rfl
    · exact absurd hn (by simp [tlv, chatPeekHeader])
  obtain ⟨frames, rest, -, huniq, hserver, -, hclient⟩ :=
    framers_agree (c := ClientState.free.install 7) rfl
      ⟨fun _ => false, fun _ => false⟩ (show (0 : Int) ≤ 3 by decide)
      ⟨[[5], [0, 5, 0], [5]], by decide, false⟩ ⟨[[5, 0, 5], [0, 5]], by decide, false⟩ rfl
  obtain ⟨rfl, rfl⟩ := huniq _ _ hseg
  obtain ⟨c', x', hreads, -, hdata, -⟩ := hserver 5 (by decide)
  exact ⟨c', x', hreads, hdata, hclient 1⟩

end ChatProject
