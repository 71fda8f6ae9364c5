import Zem.Session.Writer

/-!
# Drain: the gather loop over its buffer array

`gather` collects the buffers of a batch in a list.  The source writes them to the slots of a
fixed array, under sums of `std::size_t`; this file gives that loop and shows that the two agree.

* `WriteData.Queued` — an item as `SendFrame` queues it; `queued_run`.
* `gatherLoop` — the loop of the source; `none` stands for a store past the end of `bufs`.
* `Batch.Fits` — the loop invariant; `gatherLoop_eq` — the loop stays in the array and fills it
  with the buffers of `gather`.
* `gather_stop` — the batch is the whole queue, or the next item would break a limit.
* `drain_batch` — the batch that `Drain` writes.
-/

set_option autoImplicit false

namespace Zem

/-- An item as `SendFrame` queues it: a header, and a body only if there is one to send. -/
structure WriteData.Queued (it : WriteData) : Prop where
  header : it.header.length = TCPHeaderConv.size
  body : ∀ body, it.body = some body → body ≠ [] ∧ body.length ≤ TCPSessionLimit.maxBodySize
  totalBytes : it.totalBytes = TCPHeaderConv.size + (it.body.getD []).length

theorem WriteData.Queued.body_le {it : WriteData} (h : it.Queued) :
    (it.body.getD []).length ≤ TCPSessionLimit.maxBodySize := by
  cases hb : it.body with
  | none => exact Nat.zero_le _
  | some body => exact (h.body body hb).2

theorem queued_ofArgs {a : SendArgs} (h : a.bodySize ≤ TCPSessionLimit.maxBodySize) :
    (WriteData.ofArgs a).Queued := by
  have hsum : TCPHeaderConv.size + a.bodySize ≤ sizeMax := by
    have : TCPHeaderConv.size + TCPSessionLimit.maxBodySize ≤ sizeMax := by decide
    omega
  by_cases hz : a.bodySize = 0
  · refine ⟨?_, ?_, ?_⟩
    · simp [WriteData.ofArgs]
    · intro body hb
      simp [WriteData.ofArgs, hz] at hb
    · simp [WriteData.ofArgs, hz]
  · refine ⟨?_, ?_, ?_⟩
    · simp [WriteData.ofArgs]
    · intro body hb
      simp only [WriteData.ofArgs, ne_eq, hz, not_false_eq_true, if_true] at hb
      have hsize : a.bodySize = body.length := by simp [SendArgs.bodySize, hb]
      refine ⟨?_, hsize ▸ h⟩
      rintro rfl
      exact hz hsize
    · simp only [WriteData.ofArgs, ne_eq, hz, not_false_eq_true, if_true, sizeAdd_eq hsum]
      rfl

/-- Every step keeps the queue made of items that `SendFrame` queued. -/
theorem queued_step (w : Writer) (act : WriterAct) (w' : Writer)
    (h : WriterInv w ∧ ∀ it ∈ w.session.writeQueue, it.Queued) (hstep : w.step act = some w') :
    WriterInv w' ∧ ∀ it ∈ w'.session.writeQueue, it.Queued := by
  refine ⟨writerInv_step w act w' h.1 hstep, ?_⟩
  have hinv := h.1
  cases act with
  | sendFrame a raced =>
    have hpush : a.bodySize ≤ TCPSessionLimit.maxBodySize →
        ∀ it ∈ (w.session.pushed a raced).writeQueue, it.Queued := by
      intro hbody it hit
      rcases List.mem_append.mp hit with hit | hit
      · exact h.2 it hit
      · rw [List.mem_singleton.mp hit]
        exact queued_ofArgs hbody
    rcases Writer.sendFrame_step hinv.accounting.bounded hstep with
      ⟨_, rfl⟩ | ⟨_, p, _, _, _, rfl⟩ | ⟨_, hbody, _, ⟨_, rfl⟩ | ⟨_, _, rfl⟩⟩
    · exact h.2
    · exact h.2
    · exact hpush hbody
    · exact hpush hbody
  | writeDone b ec =>
    have hdrop : ∀ it ∈ w.session.writeQueue.drop b.items, it.Queued :=
      fun it hit => h.2 it (List.mem_of_mem_drop hit)
    obtain ⟨_, ⟨_, rfl⟩ | ⟨_, _, rfl⟩ | ⟨_, _, _, rfl⟩⟩ := Writer.writeDone_step hstep
    · exact h.2
    · exact hdrop
    · exact hdrop
  | shutdown =>
    rw [Writer.shutdown_step hstep]
    exact h.2
  | setPeerApiVersion v =>
    rw [Writer.setPeerApiVersion_step hstep]
    exact h.2

theorem queued_run {acts : List WriterAct} {w : Writer}
    (h : Runs.exec Writer.step .init acts = some w) :
    ∀ it ∈ w.session.writeQueue, it.Queued := by
  have hinit : WriterInv .init ∧ ∀ it ∈ Writer.init.session.writeQueue, it.Queued :=
    ⟨writerInv_init, fun it hit => by cases hit⟩
  exact (Runs.exec_invariant queued_step hinit h).2

/-! ## The loop of the source -/

/-- The locals of the gather loop. -/
structure GatherState where
  bufs : List Bytes
  usedIov : Nat
  batchItems : Nat
  batchBytes : Nat
  deriving DecidableEq, Repr

namespace GatherState

/-- The values the locals start with: an array of empty buffers. -/
def init : GatherState := ⟨List.replicate TCPSessionLimit.maxIovPerWrite [], 0, 0, 0⟩

/-- `bufs[used_iov++] = buffer`. -/
def store (g : GatherState) (buffer : Bytes) : Option GatherState :=
  if g.usedIov < g.bufs.length then
    some { g with bufs := g.bufs.set g.usedIov buffer, usedIov := sizeAdd g.usedIov 1 }
  else none

/-- The condition of the `break`. -/
def stops (g : GatherState) (it : WriteData) : Bool :=
  g.batchItems != 0 &&
    (decide (sizeAdd g.usedIov it.seqSize > TCPSessionLimit.maxIovPerWrite) ||
      decide (sizeAdd g.batchBytes it.totalBytes > TCPSessionLimit.maxBatchBytes))

/-- The rest of the loop's body. -/
def add (g : GatherState) (it : WriteData) : Option GatherState := do
  let g ← g.store it.header
  let g ← if it.hasBody then g.store (it.body.getD []) else some g
  some { g with
    batchBytes := sizeAdd g.batchBytes it.totalBytes
    batchItems := sizeAdd g.batchItems 1 }

end GatherState

/-- The gather loop of `Drain`, over the array. -/
def gatherLoop : List WriteData → GatherState → Option GatherState
  | [], g => some g
  | it :: rest, g => if g.stops it then some g else (g.add it).bind (gatherLoop rest)

/-- The locals that hold a batch: its buffers fill the first slots. -/
def Batch.locals (b : Batch) : GatherState :=
  { bufs := b.bufs ++ List.replicate (TCPSessionLimit.maxIovPerWrite - b.usedIov) []
    usedIov := b.usedIov
    batchItems := b.items
    batchBytes := b.bytes }

@[simp] theorem Batch.locals_empty : Batch.empty.locals = .init := rfl

/-! ## The loop invariant -/

/-- A batch within the limits. -/
structure Batch.Fits (b : Batch) : Prop where
  slots : b.bufs.length = b.usedIov
  iov : b.usedIov ≤ TCPSessionLimit.maxIovPerWrite
  items_le : b.items ≤ b.usedIov
  none_yet : b.items = 0 → b.usedIov = 0 ∧ b.bytes = 0
  limit : b.bytes ≤ TCPSessionLimit.maxBatchBytes ∨ b.items = 1
  bounded : b.bytes ≤ TCPSessionLimit.maxBatchBytes + TCPHeaderConv.size +
    TCPSessionLimit.maxBodySize

theorem fits_empty : Batch.empty.Fits := by
  constructor <;> decide

theorem WriteData.length_bufs (it : WriteData) : it.bufs.length = it.seqSize := by
  unfold bufs seqSize
  split <;> rfl

theorem WriteData.seqSize_bounds (it : WriteData) : 1 ≤ it.seqSize ∧ it.seqSize ≤ 2 := by
  unfold seqSize
  split <;> decide

theorem Batch.full_iff (b : Batch) (it : WriteData) :
    b.full it = true ↔ b.items ≠ 0 ∧
      (b.usedIov + it.seqSize > TCPSessionLimit.maxIovPerWrite ∨
        b.bytes + it.totalBytes > TCPSessionLimit.maxBatchBytes) := by
  simp [Batch.full]

/-- One more item keeps a batch within the limits, if the loop goes on. -/
theorem Batch.Fits.add {b : Batch} (h : b.Fits) {it : WriteData} (hq : it.Queued)
    (hfull : ¬ b.full it = true) : (b.add it).Fits := by
  obtain ⟨hslots, hiov, hitems, hnone, hlimit, hbounded⟩ := h
  obtain ⟨hpos, htwo⟩ := it.seqSize_bounds
  have htotal := hq.totalBytes
  have hbody := hq.body_le
  rw [Batch.full_iff] at hfull
  have hmax : (2 : Nat) ≤ TCPSessionLimit.maxIovPerWrite := by decide
  refine ⟨?_, ?_, ?_, ?_, ?_, ?_⟩
  · rw [Batch.add_bufs, List.length_append, it.length_bufs, hslots]
    rfl
  all_goals
    simp only [Batch.add]
    omega

/-- A store into the slot behind the buffers of a batch. -/
theorem store_slot {bufs : List Bytes} {used k : Nat} (hlen : bufs.length = used)
    (hk : used < TCPSessionLimit.maxIovPerWrite) (items bytes : Nat) (buffer : Bytes)
    (hrest : k = TCPSessionLimit.maxIovPerWrite - used) :
    GatherState.store ⟨bufs ++ List.replicate k [], used, items, bytes⟩ buffer =
      some ⟨(bufs ++ [buffer]) ++ List.replicate (k - 1) [], used + 1, items, bytes⟩ := by
  subst hrest hlen
  have hadd : sizeAdd bufs.length 1 = bufs.length + 1 := by
    apply sizeAdd_eq
    have : TCPSessionLimit.maxIovPerWrite ≤ sizeMax := by decide
    omega
  obtain ⟨k, hk'⟩ : ∃ k, TCPSessionLimit.maxIovPerWrite - bufs.length = k + 1 :=
    ⟨TCPSessionLimit.maxIovPerWrite - bufs.length - 1, by omega⟩
  rw [hk', List.replicate_succ]
  have hslot : bufs.length < (bufs ++ [] :: List.replicate k ([] : Bytes)).length := by simp
  simp only [GatherState.store, if_pos hslot, hadd]
  simp

/-- The array loop takes an item as `Batch.add` does. -/
theorem locals_add {b : Batch} (h : b.Fits) {it : WriteData} (hq : it.Queued)
    (hfull : ¬ b.full it = true) : b.locals.add it = some (b.add it).locals := by
  have hfits := h.add hq hfull
  have hiov : b.usedIov + it.seqSize ≤ TCPSessionLimit.maxIovPerWrite := hfits.iov
  have hitems : sizeAdd b.items 1 = b.items + 1 := by
    apply sizeAdd_eq
    have : TCPSessionLimit.maxIovPerWrite + 1 ≤ sizeMax := by decide
    have := h.items_le
    have := h.iov
    omega
  have hbytes : sizeAdd b.bytes it.totalBytes = b.bytes + it.totalBytes := by
    apply sizeAdd_eq
    have hb : b.bytes + it.totalBytes ≤ TCPSessionLimit.maxBatchBytes + TCPHeaderConv.size +
      TCPSessionLimit.maxBodySize := hfits.bounded
    have : TCPSessionLimit.maxBatchBytes + TCPHeaderConv.size + TCPSessionLimit.maxBodySize ≤
      sizeMax := by decide
    omega
  obtain ⟨hpos, _⟩ := it.seqSize_bounds
  unfold GatherState.add Batch.locals
  rw [store_slot h.slots (by omega) _ _ _ rfl]
  cases hb : it.hasBody with
  | false =>
    have hone : it.seqSize = 1 := by simp [WriteData.seqSize, hb]
    simp [hitems, hbytes, Batch.add, WriteData.bufs, hb, hone, Nat.sub_sub]
  | true =>
    have htwo : it.seqSize = 2 := by simp [WriteData.seqSize, hb]
    have hlen : (b.bufs ++ [it.header]).length = b.usedIov + 1 := by simp [h.slots]
    simp only [Option.bind_eq_bind, Option.bind_some, if_true]
    rw [store_slot hlen (by omega) _ _ _ (by omega)]
    simp [hitems, hbytes, Batch.add, WriteData.bufs, hb, htwo, Nat.sub_sub]

theorem locals_stops {b : Batch} (h : b.Fits) {it : WriteData} (hq : it.Queued) :
    b.locals.stops it = b.full it := by
  obtain ⟨_, htwo⟩ := it.seqSize_bounds
  have htotal := hq.totalBytes
  have hbody := hq.body_le
  have hiov : sizeAdd b.usedIov it.seqSize = b.usedIov + it.seqSize := by
    apply sizeAdd_eq
    have : TCPSessionLimit.maxIovPerWrite + 2 ≤ sizeMax := by decide
    have := h.iov
    omega
  have hbytes : sizeAdd b.bytes it.totalBytes = b.bytes + it.totalBytes := by
    apply sizeAdd_eq
    have : 2 * (TCPSessionLimit.maxBatchBytes + TCPHeaderConv.size +
      TCPSessionLimit.maxBodySize) ≤ sizeMax := by decide
    have := h.bounded
    omega
  simp only [GatherState.stops, Batch.locals, Batch.full, hiov, hbytes]

/-- **The loop of the source** stays in the array, and its locals hold the batch of `gather`. -/
theorem gatherLoop_eq : ∀ (q : List WriteData) (b : Batch), b.Fits → (∀ it ∈ q, it.Queued) →
    gatherLoop q b.locals = some (gather q b).locals ∧ (gather q b).Fits
  | [], b, h, _ => ⟨rfl, h⟩
  | it :: rest, b, h, hq => by
    have hit : it.Queued := hq it List.mem_cons_self
    rw [gatherLoop, gather, locals_stops h hit]
    split
    · exact ⟨rfl, h⟩
    · rename_i hfull
      rw [locals_add h hit hfull, Option.bind_some]
      exact gatherLoop_eq rest (b.add it) (h.add hit hfull)
        fun it' h' => hq it' (List.mem_cons_of_mem it h')

/-! ## The batch -/

/-- The loop splits the queue: it adds the items of the first part, and stops before the second,
    at the end of the queue or at an item that would break a limit. -/
theorem gather_stop : ∀ (q : List WriteData) (b : Batch),
    ∃ p r, q = p ++ r ∧ gather q b = p.foldl Batch.add b ∧
      (r = [] ∨ ∃ it rest, r = it :: rest ∧ (gather q b).full it = true)
  | [], b => ⟨[], [], rfl, rfl, Or.inl rfl⟩
  | it :: rest, b => by
    rw [gather]
    split
    · rename_i hfull
      exact ⟨[], it :: rest, rfl, rfl, Or.inr ⟨it, rest, rfl, hfull⟩⟩
    · obtain ⟨p, r, hsplit, hfold, hstop⟩ := gather_stop rest (b.add it)
      exact ⟨it :: p, r, by rw [hsplit]; rfl, by rw [hfold]; rfl, hstop⟩

theorem foldl_add (p : List WriteData) (b : Batch) :
    p.foldl Batch.add b =
      { bufs := b.bufs ++ p.flatMap WriteData.bufs
        usedIov := b.usedIov + (p.map WriteData.seqSize).sum
        items := b.items + p.length
        bytes := b.bytes + totalOf p } := by
  induction p generalizing b with
  | nil => simp
  | cons it p ih =>
    rw [List.foldl_cons, ih]
    simp [Batch.add, Nat.add_assoc, Nat.add_comm 1]

/-- **The batch of `Drain`.**  In an open session with frames queued the gather loop ends without
    a store outside of the array, and has chosen a non-empty front part of the queue: the slots it
    used hold the headers and bodies of that part in order, the others are empty, `batch_bytes` is
    the sum over it, at most `MaxBatchBytes` unless it is a single frame, and it is the whole
    queue or the next frame would break a limit. -/
theorem drain_batch {s : TCPSession} (ho : s.isClosed = false) (hne : s.writeQueue ≠ [])
    (hq : ∀ it ∈ s.writeQueue, it.Queued) :
    ∃ p r g, s.writeQueue = p ++ r ∧ p ≠ [] ∧
      gatherLoop s.writeQueue .init = some g ∧
      s.drain = (s, [.asyncWrite ⟨p.flatMap WriteData.bufs, g.usedIov, g.batchItems,
        g.batchBytes⟩]) ∧
      g.usedIov = (p.flatMap WriteData.bufs).length ∧
      g.usedIov ≤ TCPSessionLimit.maxIovPerWrite ∧
      g.bufs = p.flatMap WriteData.bufs ++
        List.replicate (TCPSessionLimit.maxIovPerWrite - g.usedIov) [] ∧
      g.batchItems = p.length ∧
      g.batchBytes = totalOf p ∧
      (g.batchBytes ≤ TCPSessionLimit.maxBatchBytes ∨ p.length = 1) ∧
      (r = [] ∨ ∃ it rest, r = it :: rest ∧
        (g.usedIov + it.seqSize > TCPSessionLimit.maxIovPerWrite ∨
          g.batchBytes + it.totalBytes > TCPSessionLimit.maxBatchBytes)) := by
  obtain ⟨hloop, hfits⟩ := gatherLoop_eq s.writeQueue .empty fits_empty hq
  obtain ⟨p, r, hsplit, hfold, hstop⟩ := gather_stop s.writeQueue .empty
  rw [foldl_add] at hfold
  simp only [Batch.empty, List.nil_append, Nat.zero_add] at hfold
  have hdrain : s.drain = (s, [.asyncWrite (gather s.writeQueue .empty)]) := by
    rcases TCPSession.drain_cases s with ⟨hc | hnil, _⟩ | ⟨_, _, hd⟩
    · rw [ho] at hc
      cases hc
    · exact absurd hnil hne
    · exact hd
  change gather s.writeQueue .empty = _ at hfold
  rw [hfold] at hloop hfits hstop hdrain
  have hp : p ≠ [] := by
    rintro rfl
    rcases hstop with hr | ⟨it, rest, _, hfull⟩
    · exact hne (by rw [hsplit, hr]; rfl)
    · rw [Batch.full_iff] at hfull
      exact hfull.1 rfl
  refine ⟨p, r, _, hsplit, hp, hloop, hdrain, hfits.slots.symm, hfits.iov, rfl, rfl, rfl,
    hfits.limit, ?_⟩
  rcases hstop with hr | ⟨it, rest, hr, hfull⟩
  · exact Or.inl hr
  · rw [Batch.full_iff] at hfull
    exact Or.inr ⟨it, rest, hr, hfull.2⟩

/-- The rule at the queue that two `SendFrame` tasks leave. -/
theorem drain_batch_two_frames :
    ∃ w, Runs.exec Writer.step .init [.sendFrame ⟨.ping, none, 1⟩ false,
        .sendFrame ⟨.receiving, some [7], 1⟩ false] = some w ∧
      ∃ p r g, w.session.writeQueue = p ++ r ∧ p ≠ [] ∧
        gatherLoop w.session.writeQueue .init = some g ∧
        g.usedIov ≤ TCPSessionLimit.maxIovPerWrite := by
  refine ⟨_, rfl, ?_⟩
  obtain ⟨p, r, g, hsplit, hp, hloop, _, _, hiov, _⟩ := drain_batch
    (s := (Writer.session _)) rfl (by decide)
    (queued_run (show Runs.exec Writer.step .init [.sendFrame ⟨.ping, none, 1⟩ false,
      .sendFrame ⟨.receiving, some [7], 1⟩ false] = some _ from rfl))
  exact ⟨p, r, g, hsplit, hp, hloop, hiov⟩

end Zem
