import BlockHeap.Arena.Check
import BlockHeap.Proofs.Search

/-!
# Checks of a laid out arena

A check of an arena whose chain is laid out gives a report, and the report lists the blocks of the
chain. What the report adds up and complains about on the way is read off its rows, and these off the
chain: no sum is too large, since the blocks before an address have no more bytes than it.
-/

namespace BlockHeap

namespace Report

/-- The number of bytes in blocks of one status. -/
def bytesIn (status : Status) (rows : List Row) : Nat :=
  ((rows.filter (·.status = status)).map Row.size).foldr (· + ·) 0

/-- The offsets of the free rows right after a free row. -/
def freeAfterFree : List Row → List Nat
  | first :: second :: rows =>
    if first.status = .free ∧ second.status = .free then
      second.offset :: freeAfterFree (second :: rows)
    else freeAfterFree (second :: rows)
  | _ => []

section Extend

variable {r : Report} {afterFree : Bool} {row : Row} {rows : List Row}

/-- The offsets of the free rows right after a free row, where the first row comes after a free one or
not. -/
def freeAfter (afterFree : Bool) : List Row → List Nat
  | [] => []
  | row :: rows =>
    (if row.status = .free ∧ afterFree then [row.offset] else []) ++
      freeAfter (row.status = .free) rows

lemma freeAfter_cons (row : Row) (rows : List Row) :
    freeAfter (row.status = .free) rows = freeAfterFree (row :: rows) := by
  induction rows generalizing row with
  | nil => rfl
  | cons second rows ih =>
    unfold freeAfter freeAfterFree
    rw [ih]
    by_cases hfirst : row.status = .free <;> by_cases hsecond : second.status = .free <;>
      simp [hfirst, hsecond]

lemma freeAfter_false (rows : List Row) : freeAfter false rows = freeAfterFree rows := by
  cases rows with
  | nil => rfl
  | cons row rows =>
    rw [← freeAfter_cons]
    simp [freeAfter]

lemma bytesIn_cons (status : Status) (row : Row) (rows : List Row) :
    bytesIn status (row :: rows) =
      (if row.status = status then row.size else 0) + bytesIn status rows := by
  unfold bytesIn
  by_cases hrow : row.status = status <;> simp [hrow]

/-- The report with more rows, the first of which comes after a free one or not. -/
def extend (r : Report) (afterFree : Bool) (rows : List Row) : Report :=
  { r with
    rows := r.rows ++ rows
    freeBytes := r.freeBytes + bytesIn .free rows
    allocatedBytes := r.allocatedBytes + bytesIn .allocated rows
    adjacentFree := r.adjacentFree ++ freeAfter afterFree rows }

lemma push_eq (hfits : r.freeBytes + r.allocatedBytes + row.size < Word.limit) :
    r.push afterFree row = .ok (r.extend afterFree [row]) := by
  have hfree := Word.add_of_lt (show r.freeBytes + row.size < Word.limit by omega)
  have hallocated := Word.add_of_lt (show r.allocatedBytes + row.size < Word.limit by omega)
  unfold push extend
  cases hstatus : row.status with
  | free =>
    cases afterFree <;>
      simp [hfree, hstatus, freeAfter, bytesIn, bind, Except.bind, pure, Except.pure]
  | allocated => simp [hallocated, hstatus, freeAfter, bytesIn, bind, Except.bind, pure, Except.pure]

lemma extend_nil (r : Report) (afterFree : Bool) : r.extend afterFree [] = r := by
  simp [extend, freeAfter, bytesIn]

lemma extend_extend (r : Report) (afterFree : Bool) (row : Row) (rows : List Row) :
    (r.extend afterFree [row]).extend (row.status = .free) rows =
      r.extend afterFree (row :: rows) := by
  have hbytes : ∀ status,
      bytesIn status [row] + bytesIn status rows = bytesIn status (row :: rows) := by
    intro status
    rw [bytesIn_cons status row [], bytesIn_cons status row rows]
    rfl
  simp [extend, freeAfter, Nat.add_assoc, hbytes]

/-- One more row makes the totals larger by its size. -/
lemma extend_total (r : Report) (afterFree : Bool) (row : Row) :
    (r.extend afterFree [row]).freeBytes + (r.extend afterFree [row]).allocatedBytes =
      r.freeBytes + r.allocatedBytes + row.size := by
  unfold extend
  simp only [bytesIn_cons]
  cases row.status <;> simp [bytesIn] <;> omega

end Extend

/-- The rows of a chain from `a` on in a heap that begins at `start`. -/
def rowsOf (start : Nat) : Nat → List Piece → List Row
  | _, [] => []
  | a, p :: rest => ⟨a, a - start, p.size, p.status⟩ :: rowsOf start (a + p.size) rest

lemma rowsOf_append (start a : Nat) (xs ys : List Piece) :
    rowsOf start a (xs ++ ys) = rowsOf start a xs ++ rowsOf start (a + span xs) ys := by
  induction xs generalizing a with
  | nil => rfl
  | cons p xs ih =>
    simp only [List.cons_append, rowsOf, ih, span_cons, Nat.add_assoc]

@[simp] lemma length_rowsOf (start a : Nat) (blocks : List Piece) :
    (rowsOf start a blocks).length = blocks.length := by
  induction blocks generalizing a with
  | nil => rfl
  | cons p rest ih => simp only [rowsOf, List.length_cons, ih]

/-- The offsets of the rows are those of the blocks. -/
lemma offsets_rowsOf (start a : Nat) (blocks : List Piece) :
    (rowsOf start a blocks).map Row.offset = (heads a blocks).map (· - start) := by
  induction blocks generalizing a with
  | nil => rfl
  | cons p rest ih => simp only [rowsOf, List.map_cons, ih, heads_cons]

lemma bytesIn_rowsOf (status : Status) (start a : Nat) (blocks : List Piece) :
    bytesIn status (rowsOf start a blocks) = span (blocks.filter (·.status = status)) := by
  induction blocks generalizing a with
  | nil => rfl
  | cons p rest ih =>
    have hrest := ih (a + p.size)
    unfold bytesIn at hrest ⊢
    by_cases hp : p.status = status <;> simpa [rowsOf, hp] using hrest

lemma bytesIn_rowsOf_allocated (start a : Nat) (blocks : List Piece) :
    bytesIn .allocated (rowsOf start a blocks) = ((taken a blocks).map Prod.snd).sum := by
  rw [bytesIn_rowsOf]
  induction blocks generalizing a with
  | nil => rfl
  | cons p rest ih =>
    obtain ⟨n, status⟩ := p
    cases status with
    | free | allocated => simpa using ih (a + n)

/-- The second of two neighbours is named if both are free. -/
lemma freeAfterFree_rowsOf_cons (start a : Nat) (p q : Piece) (rest : List Piece) :
    freeAfterFree (rowsOf start a (p :: q :: rest)) =
      if p.status = .free ∧ q.status = .free then
        (a + p.size - start) :: freeAfterFree (rowsOf start (a + p.size) (q :: rest))
      else freeAfterFree (rowsOf start (a + p.size) (q :: rest)) := rfl

/-- A report complains about nothing exactly if no two neighbours are free. -/
lemma freeAfterFree_rowsOf_iff (start a : Nat) (blocks : List Piece) :
    freeAfterFree (rowsOf start a blocks) = [] ↔ Merged blocks := by
  induction blocks generalizing a with
  | nil => exact ⟨fun _ => List.isChain_nil, fun _ => rfl⟩
  | cons p rest ih =>
    cases rest with
    | nil => exact ⟨fun _ => List.isChain_singleton p, fun _ => rfl⟩
    | cons q rest =>
      unfold Merged
      rw [List.isChain_cons_cons, freeAfterFree_rowsOf_cons]
      by_cases hboth : p.status = .free ∧ q.status = .free
      · rw [if_pos hboth]
        exact ⟨fun hnil => absurd hnil (by simp), fun hapart => absurd hboth hapart.1⟩
      · rw [if_neg hboth, ih]
        exact ⟨fun hrest => ⟨hboth, hrest⟩, fun hrest => hrest.2⟩

end Report

namespace Arena

variable {σ : Type} {h : Arena σ}

/-- The blocks from `block` up to the end sentinel, as a check lists them. -/
def rowsFrom (h : Arena σ) : Nat → Nat → Except CheckError (List Report.Row)
  | 0, _ => .error (.fault .endless)
  | steps + 1, block =>
    if h.stop ≤ block then do
      checkSentinel .stop ⟨h.memory.word block⟩
      return []
    else do
      let row ← h.checkBlock block
      let rows ← h.rowsFrom steps (block + row.size)
      return row :: rows

/-- A block that passes ends at an address. -/
lemma checkBlock_fits {block : Nat} {row : Report.Row} (hr : h.checkBlock block = .ok row) :
    block + row.size < Word.limit := by
  unfold checkBlock at hr
  simp only at hr
  split at hr
  next => exact absurd hr nofun
  next =>
    obtain ⟨stop, hstop, hr⟩ := ok_of_bind hr
    have hsum := ok_of_mapError hstop
    split at hr
    next => exact absurd hr nofun
    next =>
      split at hr
      next => exact absurd hr nofun
      next =>
        split at hr
        next => exact absurd hr nofun
        next =>
          obtain rfl := Except.ok.inj hr
          unfold Word.add at hsum
          split at hsum
          next hlt => exact hlt
          next => exact absurd hsum nofun

/-- What a check adds up on its way is what the rows that it lists come to. -/
lemma checkFrom_eq (h : Arena σ) (steps block : Nat) (afterFree : Bool) {report : Report}
    (hroom : report.freeBytes + report.allocatedBytes ≤ block) :
    h.checkFrom steps block afterFree report =
      report.extend afterFree <$> h.rowsFrom steps block := by
  induction steps generalizing block afterFree report with
  | zero => rfl
  | succ steps ih =>
    unfold checkFrom rowsFrom
    split
    next =>
      cases checkSentinel .stop ⟨h.memory.word block⟩ with
      | error e => rfl
      | ok _ => exact congrArg Except.ok (report.extend_nil afterFree).symm
    next =>
      cases hrow : h.checkBlock block with
      | error e => rfl
      | ok row =>
        have hfits := checkBlock_fits hrow
        have htotal := report.extend_total afterFree row
        have hpush : report.push afterFree row = .ok (report.extend afterFree [row]) :=
          Report.push_eq (by omega)
        have hrest := ih (block + row.size) (row.status = .free)
          (show (report.extend afterFree [row]).freeBytes +
            (report.extend afterFree [row]).allocatedBytes ≤ _ by omega)
        change ((report.push afterFree row).mapError .fault >>= fun report =>
          h.checkFrom steps (block + row.size) (row.status = .free) report) = _
        rw [hpush]
        change h.checkFrom steps (block + row.size) (row.status = .free) _ =
          report.extend afterFree <$> (h.rowsFrom steps (block + row.size) >>= fun _ => _)
        rw [hrest]
        cases h.rowsFrom steps (block + row.size) with
        | error e => rfl
        | ok rows => exact congrArg Except.ok (report.extend_extend afterFree row rows)

/-- A block passes exactly if its tags are those of a piece that ends at the stop or before it. -/
lemma checkBlock_ok_iff {block : Nat} {row : Report.Row} (hlimit : h.stop < Word.limit) :
    h.checkBlock block = .ok row ↔
      ∃ p : Piece, p.Whole ∧ h.memory.word block = p.bits ∧
        h.memory.word (block + p.size - wordSize) = p.bits ∧ block + p.size ≤ h.stop ∧
        row = ⟨block, block - h.start, p.size, p.status⟩ := by
  unfold checkBlock
  simp only
  constructor
  · intro hr
    split at hr
    next => exact absurd hr nofun
    next hsize =>
      obtain ⟨stop, hstop, hr⟩ := ok_of_bind hr
      have hsum := Word.add_ok (ok_of_mapError hstop)
      have hunit := Tag.size_mod ⟨h.memory.word block⟩
      split at hr
      next => exact absurd hr nofun
      next hle =>
        split at hr
        next => exact absurd hr nofun
        next status hstatus =>
          have hbits := Tag.bits_eq hstatus
          have hwhole : Piece.Whole ⟨Tag.size ⟨h.memory.word block⟩, status⟩ :=
            ⟨Nat.pos_of_ne_zero hsize, hunit⟩
          have hroom := hwhole.le
          simp only [minBlockSize] at hroom
          rw [Block.footer_eq (by simp only [wordSize]; omega) (by omega)] at hr
          split at hr
          next => exact absurd hr nofun
          next hfooter =>
            refine ⟨_, hwhole, hbits, ?_, by simp only; omega, (Except.ok.inj hr).symm⟩
            rw [ne_eq, not_not] at hfooter
            exact (congrArg Tag.bits hfooter).trans hbits
  · rintro ⟨p, hp, hhead, hfoot, hle, rfl⟩
    have hroom := hp.le
    simp only [minBlockSize] at hroom
    rw [hhead, hp.tag_size, hp.tag_status, if_neg (by omega), Word.add_of_lt (by omega),
      Block.footer_eq (by simp only [wordSize]; omega) (by omega), hfoot]
    change (if h.stop < block + p.size then _ else _) = _
    rw [if_neg (by omega)]
    simp only [ne_eq, not_true_eq_false, if_false]
    rfl

/-- At the stop, the walk looks at the sentinel there and lists nothing more. -/
lemma rowsFrom_stop_iff {steps : Nat} {rows : List Report.Row} :
    h.rowsFrom (steps + 1) h.stop = .ok rows ↔
      h.memory.word h.stop = Tag.sentinel.bits ∧ rows = [] := by
  unfold rowsFrom checkSentinel
  rw [if_pos (Nat.le_refl _)]
  constructor
  · intro hr
    obtain ⟨_, hsentinel, hr⟩ := ok_of_bind hr
    split at hsentinel
    next heq => exact ⟨congrArg Tag.bits heq, (Except.ok.inj hr).symm⟩
    next => exact absurd hsentinel nofun
  · rintro ⟨hafter, rfl⟩
    rw [hafter]
    rfl

/-- Before the stop, the walk goes on behind the block that it lists. -/
lemma rowsFrom_step_iff {steps block : Nat} {rows : List Report.Row} (hlimit : h.stop < Word.limit)
    (hlt : block < h.stop) :
    h.rowsFrom (steps + 1) block = .ok rows ↔
      ∃ (p : Piece) (rest : List Report.Row), p.Whole ∧ h.memory.word block = p.bits ∧
        h.memory.word (block + p.size - wordSize) = p.bits ∧ block + p.size ≤ h.stop ∧
        h.rowsFrom steps (block + p.size) = .ok rest ∧
        rows = ⟨block, block - h.start, p.size, p.status⟩ :: rest := by
  rw [rowsFrom, if_neg (Nat.not_le_of_lt hlt)]
  constructor
  · intro hr
    obtain ⟨row, hrow, hr⟩ := ok_of_bind hr
    obtain ⟨rest, hrest, hr⟩ := ok_of_bind hr
    obtain ⟨p, hp, hhead, hfoot, hroom, rfl⟩ := (checkBlock_ok_iff hlimit).mp hrow
    exact ⟨p, rest, hp, hhead, hfoot, hroom, hrest, (Except.ok.inj hr).symm⟩
  · rintro ⟨p, rest, hp, hhead, hfoot, hroom, hrest, rfl⟩
    have hrow : h.checkBlock block = .ok ⟨block, block - h.start, p.size, p.status⟩ :=
      (checkBlock_ok_iff hlimit).mpr ⟨p, hp, hhead, hfoot, hroom, rfl⟩
    rw [hrow]
    change (h.rowsFrom steps (block + p.size) >>= _) = _
    rw [hrest]
    rfl

/-- The walk comes to its end exactly if the memory holds a chain up to the stop and the sentinel
there, and then it lists that chain. -/
lemma rowsFrom_ok_iff {steps block : Nat} {rows : List Report.Row} (hlimit : h.stop < Word.limit)
    (hle : block ≤ h.stop) (hsteps : (h.stop - block) / blockUnit < steps) :
    h.rowsFrom steps block = .ok rows ↔
      h.memory.word h.stop = Tag.sentinel.bits ∧
        ∃ blocks, Tiles h.memory block blocks ∧ block + span blocks = h.stop ∧
          rows = Report.rowsOf h.start block blocks := by
  induction steps generalizing block rows with
  | zero => exact absurd hsteps (Nat.not_lt_zero _)
  | succ steps ih =>
    -- no block is smaller than the unit, so the steps left are enough behind one more block
    have hleft : ∀ p : Piece, p.Whole → block + p.size ≤ h.stop →
        (h.stop - (block + p.size)) / blockUnit < steps := by
      intro p hp hroom
      have hmin := hp.le
      simp only [minBlockSize, blockUnit] at hmin hsteps ⊢
      omega
    rcases Nat.eq_or_lt_of_le hle with rfl | hlt
    · rw [rowsFrom_stop_iff]
      constructor
      · rintro ⟨hafter, rfl⟩
        exact ⟨hafter, [], trivial, rfl, rfl⟩
      · rintro ⟨hafter, blocks, htiles, hspan, rfl⟩
        obtain rfl : blocks = [] := htiles.unique (tiles_nil _ _) (by rw [span_nil]; omega)
        exact ⟨hafter, rfl⟩
    · rw [rowsFrom_step_iff hlimit hlt]
      constructor
      · rintro ⟨p, rest, hp, hhead, hfoot, hroom, hrest, rfl⟩
        obtain ⟨hafter, blocks, htiles, hspan, rfl⟩ := (ih hroom (hleft p hp hroom)).mp hrest
        refine ⟨hafter, p :: blocks, ⟨hp, hhead, hfoot, htiles⟩, ?_, rfl⟩
        rw [span_cons, ← Nat.add_assoc]
        exact hspan
      · rintro ⟨hafter, _ | ⟨p, blocks⟩, htiles, hspan, rfl⟩
        · rw [span_nil] at hspan
          omega
        · obtain ⟨hp, hhead, hfoot, htiles⟩ := htiles
          rw [span_cons, ← Nat.add_assoc] at hspan
          have hroom : block + p.size ≤ h.stop := by omega
          exact ⟨p, _, hp, hhead, hfoot, hroom,
            (ih hroom (hleft p hp hroom)).mpr ⟨hafter, blocks, htiles, hspan, rfl⟩, rfl⟩

/-- The offset that the cursor is shown as. -/
def shownCursor (h : Arena σ) : Except CheckError (Option Nat) :=
  match h.placement.cursor with
  | some block => some <$> (Word.sub block h.start).mapError .fault
  | none => pure none

/-- A cursor can be shown exactly if it is not below the start. -/
lemma shownCursor_ok_iff {shown : Option Nat} :
    h.shownCursor = .ok shown ↔
      (∀ c, h.placement.cursor = some c → h.start ≤ c) ∧
        shown = h.placement.cursor.map fun c => c - h.start := by
  unfold shownCursor
  cases h.placement.cursor with
  | none =>
    exact ⟨fun hr => ⟨nofun, (Except.ok.inj hr).symm⟩, fun hr => congrArg Except.ok hr.2.symm⟩
  | some c =>
    simp only [Option.some.injEq, forall_eq', Option.map_some]
    constructor
    · intro hr
      cases hsub : Word.sub c h.start with
      | error fault =>
        rw [hsub] at hr
        exact absurd hr nofun
      | ok offset =>
        obtain ⟨hlow, rfl⟩ := Word.sub_ok hsub
        rw [hsub] at hr
        exact ⟨hlow, (Except.ok.inj hr).symm⟩
    · rintro ⟨hlow, rfl⟩
      rw [Word.sub_of_le hlow]
      rfl

variable [Segment σ] {blocks : List Piece}

/-- What a check says about a laid out arena. -/
def reportOf (h : Arena σ) (blocks : List Piece) : Report where
  policy := h.placement.policy
  physicalStart := Segment.start h.segment
  physicalStop := Segment.stop h.segment
  start := h.start
  stop := h.stop
  cursor := h.placement.cursor.map fun c => c - h.start
  rows := Report.rowsOf h.start h.start blocks
  freeBytes := Report.bytesIn .free (Report.rowsOf h.start h.start blocks)
  allocatedBytes := Report.bytesIn .allocated (Report.rowsOf h.start h.start blocks)
  adjacentFree := Report.freeAfterFree (Report.rowsOf h.start h.start blocks)

/-- The report with this cursor and these rows. -/
def reportWith (h : Arena σ) (cursor : Option Nat) (rows : List Report.Row) : Report where
  policy := h.placement.policy
  physicalStart := Segment.start h.segment
  physicalStop := Segment.stop h.segment
  start := h.start
  stop := h.stop
  cursor := cursor
  rows := rows
  freeBytes := Report.bytesIn .free rows
  allocatedBytes := Report.bytesIn .allocated rows
  adjacentFree := Report.freeAfterFree rows

/-- A check looks at the start sentinel, at the cursor and at the chain, in this order. -/
lemma check_eq_bind (h : Arena σ) :
    h.check = do
      checkSentinel .start ⟨h.memory.word (Word.backward h.start wordSize)⟩
      let cursor ← h.shownCursor
      let rows ← h.rowsFrom h.walkLimit h.start
      return h.reportWith cursor rows := by
  unfold check shownCursor
  refine bind_congr fun _ => ?_
  have hwalk : ∀ cursor, h.checkFrom h.walkLimit h.start false (h.reportWith cursor []) =
      h.reportWith cursor <$> h.rowsFrom h.walkLimit h.start := by
    intro cursor
    have hextend : (h.reportWith cursor []).extend false = h.reportWith cursor := by
      funext rows
      simp [Report.extend, reportWith, Report.freeAfter_false, Report.bytesIn, Report.freeAfterFree]
    rw [checkFrom_eq _ _ _ _ (Nat.zero_le _), hextend]
  cases h.placement.cursor with
  | none => exact hwalk none
  | some block =>
    dsimp only
    cases Word.sub block h.start with
    | error fault => rfl
    | ok offset => exact hwalk (some offset)

/-- A check gives a report exactly if the cursor can be shown and the memory holds a chain from start
to stop between two sentinels, and the report is about that chain. -/
theorem check_ok_iff {report : Report} (hle : h.start ≤ h.stop) (hlimit : h.stop < Word.limit) :
    h.check = .ok report ↔
      (∀ c, h.placement.cursor = some c → h.start ≤ c) ∧
        h.memory.word (Word.backward h.start wordSize) = Tag.sentinel.bits ∧
        h.memory.word h.stop = Tag.sentinel.bits ∧
        ∃ blocks, Tiles h.memory h.start blocks ∧ h.start + span blocks = h.stop ∧
          report = h.reportOf blocks := by
  have hsteps : (h.stop - h.start) / blockUnit < h.walkLimit := by
    unfold walkLimit
    simp only [blockUnit]
    omega
  rw [check_eq_bind]
  unfold checkSentinel
  constructor
  · intro hr
    obtain ⟨_, hsentinel, hr⟩ := ok_of_bind hr
    obtain ⟨cursor, hshown, hr⟩ := ok_of_bind hr
    obtain ⟨rows, hrows, hr⟩ := ok_of_bind hr
    split at hsentinel
    next hbefore =>
      obtain ⟨hcursor, rfl⟩ := shownCursor_ok_iff.mp hshown
      obtain ⟨hafter, blocks, htiles, hspan, rfl⟩ := (rowsFrom_ok_iff hlimit hle hsteps).mp hrows
      exact ⟨hcursor, congrArg Tag.bits hbefore, hafter, blocks, htiles, hspan,
        (Except.ok.inj hr).symm⟩
    next => exact absurd hsentinel nofun
  · rintro ⟨hcursor, hbefore, hafter, blocks, htiles, hspan, rfl⟩
    have hshown := shownCursor_ok_iff.mpr ⟨hcursor, rfl⟩
    have hrows := (rowsFrom_ok_iff hlimit hle hsteps).mpr ⟨hafter, blocks, htiles, hspan, rfl⟩
    rw [hbefore, if_pos rfl, hshown, hrows]
    rfl

theorem check_eq (hl : h.Laid blocks) (hcursor : ∀ c, h.placement.cursor = some c → h.start ≤ c) :
    h.check = .ok (h.reportOf blocks) := by
  have hstart := hl.toSited.le_start
  have hlt := hl.stop_lt_limit
  have hstop := hl.stop_eq
  have hafter := hl.chained.after
  have hback : Word.backward h.start wordSize = h.start - wordSize :=
    Word.backward_of_le (by simp only [wordSize, blockUnit] at *; omega) (by omega)
  rw [hstop] at hafter
  exact (check_ok_iff (by omega) (by omega)).mpr
    ⟨hcursor, by rw [hback]; exact hl.chained.before, hafter, blocks, hl.chained.tiles, hstop, rfl⟩

end Arena
end BlockHeap
