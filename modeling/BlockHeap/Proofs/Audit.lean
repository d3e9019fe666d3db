import BlockHeap.Arena.Client
import BlockHeap.Heap
import BlockHeap.Proofs.Check

/-!
# What a check finds out

A check is sound and complete, whatever bytes the memory holds: it gives a report exactly if there is
a chain of blocks from start to stop between two sentinels, and the report accounts for all of that
chain. The blocks need not be merged; the report names each free block that follows a free one.
-/

namespace BlockHeap

/-- Every block is free or allocated. -/
lemma span_split (blocks : List Piece) :
    span (blocks.filter (·.status = .free)) + span (blocks.filter (·.status = .allocated)) =
      span blocks := by
  induction blocks with
  | nil => rfl
  | cons p rest ih =>
    rw [List.filter_cons, List.filter_cons, span_cons]
    cases p.status with
    | free | allocated =>
      simp only [decide_true, reduceCtorEq, decide_false, if_true, Bool.false_eq_true, if_false,
        span_cons]
      omega

/-- Blocks come in the order of their addresses. -/
lemma heads_pairwise {blocks : List Piece} (a : Nat) (h : ∀ p ∈ blocks, 0 < p.size) :
    (heads a blocks).Pairwise (· < ·) := by
  induction blocks generalizing a with
  | nil => exact List.Pairwise.nil
  | cons p rest ih =>
    refine List.pairwise_cons.mpr ⟨fun b hb => ?_, ih _ fun q hq => h q (List.mem_cons_of_mem _ hq)⟩
    obtain ⟨pre, q, post, _, rfl⟩ := mem_heads_iff.mp hb
    have hpos := h p List.mem_cons_self
    omega

namespace Report

/-- The rows that are named are among the rows after the first, in their order. -/
lemma freeAfterFree_sublist (rows : List Row) :
    (freeAfterFree rows).Sublist (rows.tail.map Row.offset) := by
  induction rows with
  | nil => exact List.Sublist.refl _
  | cons first rest ih =>
    cases rest with
    | nil => exact List.Sublist.refl _
    | cons second rest =>
      unfold freeAfterFree
      split
      next => exact ih.cons_cons _
      next => exact ih.cons _

lemma offsets_pairwise {start a : Nat} {blocks : List Piece} (hle : start ≤ a)
    (h : ∀ p ∈ blocks, 0 < p.size) :
    ((rowsOf start a blocks).map Row.offset).Pairwise (· < ·) := by
  rw [offsets_rowsOf, List.pairwise_map]
  refine (heads_pairwise a h).imp_of_mem fun hb _ hlt => ?_
  obtain ⟨pre, p, post, _, rfl⟩ := mem_heads_iff.mp hb
  omega

/-- A report names a free block exactly if the block before it is free. -/
lemma mem_freeAfterFree_rowsOf {start a offset : Nat} {blocks : List Piece} :
    offset ∈ freeAfterFree (rowsOf start a blocks) ↔
      ∃ pre n k post, blocks = pre ++ ⟨n, .free⟩ :: ⟨k, .free⟩ :: post ∧
        offset = a + span pre + n - start := by
  induction blocks generalizing a with
  | nil => simp [rowsOf, freeAfterFree]
  | cons p rest ih =>
    cases rest with
    | nil =>
      refine ⟨fun hmem => absurd hmem List.not_mem_nil, ?_⟩
      rintro ⟨pre, n, k, post, hsplit, _⟩
      have hlength := congrArg List.length hsplit
      simp only [List.length_append, List.length_cons, List.length_nil] at hlength
      omega
    | cons q rest =>
      have hhere : offset ∈ freeAfterFree (rowsOf start a (p :: q :: rest)) ↔
          (p.status = .free ∧ q.status = .free ∧ offset = a + p.size - start) ∨
            offset ∈ freeAfterFree (rowsOf start (a + p.size) (q :: rest)) := by
        rw [freeAfterFree_rowsOf_cons]
        split
        next hboth => simp [hboth.1, hboth.2]
        next hapart =>
          refine ⟨Or.inr, fun hor => hor.resolve_left fun hboth => hapart ⟨hboth.1, hboth.2.1⟩⟩
      rw [hhere, ih]
      constructor
      · rintro (⟨hp, hq, rfl⟩ | ⟨pre, n, k, post, hsplit, rfl⟩)
        · obtain ⟨n, status⟩ := p
          obtain ⟨k, status'⟩ := q
          obtain rfl : status = .free := hp
          obtain rfl : status' = .free := hq
          exact ⟨[], n, k, rest, rfl, rfl⟩
        · refine ⟨p :: pre, n, k, post, by rw [hsplit]; rfl, ?_⟩
          rw [span_cons, Nat.add_assoc a]
      · rintro ⟨_ | ⟨p', pre⟩, n, k, post, hsplit, rfl⟩
        · obtain ⟨rfl, hrest⟩ := List.cons.inj hsplit
          obtain ⟨rfl, _⟩ := List.cons.inj hrest
          exact Or.inl ⟨rfl, rfl, rfl⟩
        · obtain ⟨rfl, hrest⟩ := List.cons.inj hsplit
          refine Or.inr ⟨pre, n, k, post, hrest, ?_⟩
          rw [span_cons, ← Nat.add_assoc a]

lemma countP_rowsOf (status : Status) (start a : Nat) (blocks : List Piece) :
    (rowsOf start a blocks).countP (·.status = status) = blocks.countP (·.status = status) := by
  induction blocks generalizing a with
  | nil => rfl
  | cons p rest ih => simp only [rowsOf, List.countP_cons, ih]

/-- Every row is free or allocated. -/
lemma count_add (r : Report) : r.count .free + r.count .allocated = r.rows.length := by
  have hsplit := List.length_eq_countP_add_countP
    (fun row : Row => decide (row.status = .free)) (l := r.rows)
  have hother : r.rows.countP (fun row => ¬decide (row.status = .free) = true) =
      r.count .allocated := by
    refine List.countP_congr fun row _ => ?_
    cases row.status <;> simp
  rw [hother] at hsplit
  exact hsplit.symm

/-- No row of a chain is too small for a payload. -/
lemma payload_rowsOf {start a : Nat} {blocks : List Piece} (h : ∀ p ∈ blocks, p.Whole) {row : Row}
    (hrow : row ∈ rowsOf start a blocks) :
    2 * wordSize ≤ row.size ∧ row.payload = .ok (row.size - 2 * wordSize) := by
  have hroom : 2 * wordSize ≤ row.size := by
    induction blocks generalizing a with
    | nil => exact absurd hrow List.not_mem_nil
    | cons p rest ih =>
      rcases List.mem_cons.mp hrow with rfl | hrow
      · have hle := (h p List.mem_cons_self).le
        simp only [minBlockSize, wordSize] at hle ⊢
        omega
      · exact ih (fun q hq => h q (List.mem_cons_of_mem _ hq)) hrow
  exact ⟨hroom, Word.sub_of_le hroom⟩

/-- What a report accounts for in a chain of blocks from `start` on. -/
structure Shows (r : Report) (start : Nat) (blocks : List Piece) : Prop where
  length : r.rows.length = blocks.length
  row : ∀ pre p post, blocks = pre ++ p :: post →
    r.rows[pre.length]? = some ⟨start + span pre, span pre, p.size, p.status⟩
  payload : ∀ row ∈ r.rows, 2 * wordSize ≤ row.size ∧ row.payload = .ok (row.size - 2 * wordSize)
  freeBytes : r.freeBytes = span (blocks.filter (·.status = .free))
  allocatedBytes : r.allocatedBytes = span (blocks.filter (·.status = .allocated))
  count : ∀ status, r.count status = blocks.countP (·.status = status)
  counts : r.count .free + r.count .allocated = r.rows.length
  adjacent : ∀ offset, offset ∈ r.adjacentFree ↔
    ∃ pre n k post, blocks = pre ++ ⟨n, .free⟩ :: ⟨k, .free⟩ :: post ∧ offset = span pre + n
  ascending : r.adjacentFree.Pairwise (· < ·)

end Report

variable {σ : Type} [Segment σ]

/-- The report on a chain accounts for it. -/
theorem Arena.reportOf_shows (h : Arena σ) {blocks : List Piece} (hwhole : ∀ p ∈ blocks, p.Whole) :
    (h.reportOf blocks).Shows h.start blocks where
  length := Report.length_rowsOf _ _ _
  row := by
    rintro pre p post rfl
    change (Report.rowsOf h.start h.start (pre ++ p :: post))[pre.length]? = _
    rw [Report.rowsOf_append, ← Report.length_rowsOf h.start h.start pre,
      List.getElem?_append_right (Nat.le_refl _), Nat.sub_self]
    simp only [Report.rowsOf, List.getElem?_cons_zero, Nat.add_sub_cancel_left]
  payload := fun row hrow => Report.payload_rowsOf hwhole hrow
  freeBytes := Report.bytesIn_rowsOf _ _ _ _
  allocatedBytes := Report.bytesIn_rowsOf _ _ _ _
  count := fun status => Report.countP_rowsOf status _ _ _
  counts := Report.count_add _
  adjacent := by
    intro offset
    change offset ∈ Report.freeAfterFree (Report.rowsOf h.start h.start blocks) ↔ _
    rw [Report.mem_freeAfterFree_rowsOf]
    simp only [Nat.add_assoc, Nat.add_sub_cancel_left]
  ascending := by
    have hrows := Report.offsets_pairwise (Nat.le_refl h.start) fun p hp => (hwhole p hp).1
    have hsub := Report.freeAfterFree_sublist (Report.rowsOf h.start h.start blocks)
    exact hrows.sublist (hsub.trans ((List.tail_sublist _).map _))

/-- Whatever the memory holds, a check of an arena with a cursor that is not below its start gives a
report exactly if there is a chain of blocks from start to stop between two sentinels; the report
shows that chain, and its totals add up to the capacity. -/
theorem Heap.check_accounts (h : Heap σ) (hle : h.arena.start ≤ h.arena.stop)
    (hlimit : h.arena.stop < Word.limit)
    (hcursor : ∀ c, h.arena.placement.cursor = some c → h.arena.start ≤ c) :
    ((∃ report, h.check = .ok report) ↔
      h.arena.memory.word (Word.backward h.arena.start wordSize) = Tag.sentinel.bits ∧
        h.arena.memory.word h.arena.stop = Tag.sentinel.bits ∧
        ∃ blocks, Tiles h.arena.memory h.arena.start blocks ∧
          h.arena.start + span blocks = h.arena.stop) ∧
      ∀ report blocks, h.check = .ok report → Tiles h.arena.memory h.arena.start blocks →
        h.arena.start + span blocks = h.arena.stop →
        report.Shows h.arena.start blocks ∧
          report.freeBytes + report.allocatedBytes = h.arena.capacity := by
  constructor
  · constructor
    · rintro ⟨report, hreport⟩
      obtain ⟨_, hbefore, hafter, blocks, htiles, hlands, _⟩ :=
        (Arena.check_ok_iff hle hlimit).mp hreport
      exact ⟨hbefore, hafter, blocks, htiles, hlands⟩
    · rintro ⟨hbefore, hafter, blocks, htiles, hlands⟩
      exact ⟨_, (Arena.check_ok_iff hle hlimit).mpr
        ⟨hcursor, hbefore, hafter, blocks, htiles, hlands, rfl⟩⟩
  · intro report blocks hreport htiles hlands
    obtain ⟨_, _, _, blocks', htiles', hlands', rfl⟩ := (Arena.check_ok_iff hle hlimit).mp hreport
    obtain rfl := htiles.unique htiles' (by omega)
    have hshows := h.arena.reportOf_shows fun p hp => htiles.whole hp
    refine ⟨hshows, ?_⟩
    rw [hshows.freeBytes, hshows.allocatedBytes, span_split]
    unfold Arena.capacity
    omega

/-- The first block of a heap is allocated, and then its tags are overwritten with those of a free
block: the check names the free block after it. -/
theorem Heap.check_accounts_poked : ∃ (h poked : Heap (Reservation .common)) (report : Report),
    (Heap.create (⟨0x100000, 65536, 0, 4096⟩ : Reservation .common) Reservation.blank
      Config.standard).map (fun made => (made.1.allocate 8).state) = .ok h ∧
    poked = ⟨(h.arena.writeWord 0x100020 32).writeWord 0x100038 32⟩ ∧
    poked.check = .ok report ∧ report.adjacentFree = [32] ∧ report.consistent = false ∧
    ((∃ report, poked.check = .ok report) ↔
      poked.arena.memory.word (Word.backward poked.arena.start wordSize) = Tag.sentinel.bits ∧
        poked.arena.memory.word poked.arena.stop = Tag.sentinel.bits ∧
        ∃ blocks, Tiles poked.arena.memory poked.arena.start blocks ∧
          poked.arena.start + span blocks = poked.arena.stop) ∧
    ∀ blocks, Tiles poked.arena.memory poked.arena.start blocks →
      poked.arena.start + span blocks = poked.arena.stop →
      report.Shows poked.arena.start blocks ∧
        report.freeBytes + report.allocatedBytes = poked.arena.capacity := by
  have hfacts : ((Heap.create (⟨0x100000, 65536, 0, 4096⟩ : Reservation .common) Reservation.blank
      Config.standard).map (fun made => (made.1.allocate 8).state)).toOption.map (fun h =>
        (h.arena.start, h.arena.stop, h.arena.placement.cursor,
          (Heap.check ⟨(h.arena.writeWord 0x100020 32).writeWord 0x100038 32⟩).toOption.map
            Report.adjacentFree)) =
      some (0x100020, 0x1003e0, none, some [32]) := by
    decide +kernel
  obtain ⟨h, hmade, hfacts⟩ := Option.map_eq_some_iff.mp hfacts
  obtain ⟨hstart, hfacts⟩ := Prod.mk.inj hfacts
  obtain ⟨hstop, hfacts⟩ := Prod.mk.inj hfacts
  obtain ⟨hcursor, hchecked⟩ := Prod.mk.inj hfacts
  obtain ⟨report, hreport, hadjacent⟩ := Option.map_eq_some_iff.mp hchecked
  have hcheck := ok_of_toOption hreport
  obtain ⟨hiff, hshows⟩ := Heap.check_accounts
    ⟨(h.arena.writeWord 0x100020 32).writeWord 0x100038 32⟩
    (by change h.arena.start ≤ h.arena.stop; omega)
    (by change h.arena.stop < Word.limit; simp only [Word.limit]; omega)
    (fun c hc => absurd (hcursor.symm.trans hc) nofun)
  refine ⟨h, _, report, ok_of_toOption hmade, rfl, hcheck, hadjacent, ?_, hiff,
    fun blocks => hshows report blocks hcheck⟩
  unfold Report.consistent
  rw [hadjacent]
  rfl

end BlockHeap
