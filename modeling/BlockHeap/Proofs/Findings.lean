import BlockHeap.Proofs.Audit

/-!
# What a check finds

A check of a damaged heap names the first thing that is wrong: the start sentinel, or else the first
block on the way whose tags are not those of a block, or else the end sentinel. `Finding` says so
without the walk. The check answers with the finding exactly if the end of every block that it comes
to is an address; at a header whose size leads past the last address it faults instead.
-/

namespace BlockHeap

lemma error_bind_iff {ε α β : Type} {e : Except ε α} {f : α → Except ε β} {x : ε} :
    (e >>= f) = .error x ↔ e = .error x ∨ ∃ a, e = .ok a ∧ f a = .error x := by
  refine ⟨error_of_bind, ?_⟩
  rintro (rfl | ⟨a, rfl, hf⟩)
  · rfl
  · exact hf

lemma error_bind_pure_iff {ε α β : Type} {e : Except ε α} {g : α → β} {x : ε} :
    (e >>= fun a => (pure (g a) : Except ε β)) = .error x ↔ e = .error x := by
  rw [error_bind_iff, or_iff_left]
  rintro ⟨_, _, hr⟩
  exact absurd hr nofun

/-- What a computation failed with, if it did. -/
def failure? {ε α : Type} : Except ε α → Option ε
  | .error x => some x
  | .ok _ => none

lemma error_of_failure {ε α : Type} {e : Except ε α} {x : ε} (h : failure? e = some x) :
    e = .error x := by
  cases e with
  | error y => exact congrArg Except.error (Option.some.inj h)
  | ok _ => exact absurd h nofun

namespace Arena

variable {σ : Type} {h : Arena σ}

/-- What is wrong with the tags of the block at `block`, by the first test that it fails. -/
inductive Flaw (h : Arena σ) (block : Nat) : Damage → Prop
  | zeroSize (empty : Tag.size ⟨h.memory.word block⟩ = 0) :
      Flaw h block (.zeroSize (block - h.start))
  | overrun (sized : Tag.size ⟨h.memory.word block⟩ ≠ 0)
      (beyond : h.stop < block + Tag.size ⟨h.memory.word block⟩) :
      Flaw h block (.overrun (block - h.start) (Tag.size ⟨h.memory.word block⟩))
  | damagedTag (sized : Tag.size ⟨h.memory.word block⟩ ≠ 0)
      (within : block + Tag.size ⟨h.memory.word block⟩ ≤ h.stop)
      (unread : Tag.status? ⟨h.memory.word block⟩ = none) :
      Flaw h block (.damagedTag (block - h.start) ⟨h.memory.word block⟩)
  | tagMismatch (sized : Tag.size ⟨h.memory.word block⟩ ≠ 0)
      (within : block + Tag.size ⟨h.memory.word block⟩ ≤ h.stop)
      (read : Tag.status? ⟨h.memory.word block⟩ ≠ none)
      (differ : h.memory.word (block + Tag.size ⟨h.memory.word block⟩ - wordSize) ≠
        h.memory.word block) :
      Flaw h block (.tagMismatch (block - h.start) ⟨h.memory.word block⟩
        ⟨h.memory.word (block + Tag.size ⟨h.memory.word block⟩ - wordSize)⟩)

/-- The start sentinel is intact, and so are all blocks from the start up to `block`. -/
def Intact (h : Arena σ) (block : Nat) : Prop :=
  h.memory.word (Word.backward h.start wordSize) = Tag.sentinel.bits ∧
    ∃ pre, Tiles h.memory h.start pre ∧ h.start + span pre = block

/-- The first thing that is wrong with an arena, from its start on. -/
inductive Finding (h : Arena σ) : Damage → Prop
  | start (bad : h.memory.word (Word.backward h.start wordSize) ≠ Tag.sentinel.bits) :
      Finding h (.badSentinel .start ⟨h.memory.word (Word.backward h.start wordSize)⟩)
  | block {block : Nat} {d : Damage} (intact : h.Intact block) (before : block < h.stop)
      (flaw : h.Flaw block d) : Finding h d
  | stop (intact : h.Intact h.stop) (bad : h.memory.word h.stop ≠ Tag.sentinel.bits) :
      Finding h (.badSentinel .stop ⟨h.memory.word h.stop⟩)

/-- Behind intact blocks there is a header whose size leads past the last address. -/
def Overreaches (h : Arena σ) : Prop :=
  ∃ block, h.Intact block ∧ block < h.stop ∧
    Word.limit ≤ block + Tag.size ⟨h.memory.word block⟩

lemma checkSentinel_error_iff {side : Side} {tag : Tag} {e : CheckError} :
    checkSentinel side tag = .error e ↔
      tag.bits ≠ Tag.sentinel.bits ∧ e = .damage (.badSentinel side tag) := by
  unfold checkSentinel
  split
  next heq => exact ⟨nofun, fun hr => absurd (congrArg Tag.bits heq) hr.1⟩
  next hne =>
    exact ⟨fun hr => ⟨fun hbits => hne (congrArg Tag.mk hbits), (Except.error.inj hr).symm⟩,
      fun hr => hr.2 ▸ rfl⟩

lemma checkSentinel_ok_iff {side : Side} {tag : Tag} {u : Unit} :
    checkSentinel side tag = .ok u ↔ tag.bits = Tag.sentinel.bits := by
  unfold checkSentinel
  split
  next heq => exact ⟨fun _ => congrArg Tag.bits heq, fun _ => rfl⟩
  next hne => exact ⟨nofun, fun hbits => absurd (congrArg Tag.mk hbits) hne⟩

lemma checkBlock_of_overreach {block : Nat}
    (hover : Word.limit ≤ block + Tag.size ⟨h.memory.word block⟩) (hlt : block < Word.limit) :
    h.checkBlock block = .error (.fault .addOverflow) := by
  have hsize : Tag.size ⟨h.memory.word block⟩ ≠ 0 := by omega
  have hsum : Word.add block (Tag.size ⟨h.memory.word block⟩) = .error .addOverflow :=
    if_neg (by omega)
  unfold checkBlock
  simp only
  rw [if_neg hsize, hsum]
  rfl

/-- Where a size and the address add up, what is left are the tests behind that sum. -/
lemma checkBlock_of_fits {block : Nat} (hsize : Tag.size ⟨h.memory.word block⟩ ≠ 0)
    (hfits : block + Tag.size ⟨h.memory.word block⟩ < Word.limit) :
    h.checkBlock block =
      (if h.stop < block + Tag.size ⟨h.memory.word block⟩ then
        throw (.damage (.overrun (block - h.start) (Tag.size ⟨h.memory.word block⟩)))
      else match Tag.status? ⟨h.memory.word block⟩ with
        | none => throw (.damage (.damagedTag (block - h.start) ⟨h.memory.word block⟩))
        | some status =>
          let footer : Tag :=
            ⟨h.memory.word (Block.footer block (Tag.size ⟨h.memory.word block⟩))⟩
          if footer ≠ ⟨h.memory.word block⟩ then
            throw (.damage (.tagMismatch (block - h.start) ⟨h.memory.word block⟩ footer))
          else
            pure ⟨block, block - h.start, Tag.size ⟨h.memory.word block⟩, status⟩) := by
  unfold checkBlock
  simp only
  rw [if_neg hsize, Word.add_of_lt hfits]
  -- without a name for the header, the last step would unfold how it is read
  generalize h.memory.word block = header
  rfl

lemma Flaw.checkBlock_eq {block : Nat} {d : Damage} (hflaw : h.Flaw block d)
    (hfits : block + Tag.size ⟨h.memory.word block⟩ < Word.limit) :
    h.checkBlock block = .error (.damage d) := by
  cases hflaw with
  | zeroSize empty =>
    unfold checkBlock
    simp only
    rw [if_pos empty]
    rfl
  | overrun sized beyond =>
    rw [checkBlock_of_fits sized hfits, if_pos beyond]
    rfl
  | damagedTag sized within unread =>
    rw [checkBlock_of_fits sized hfits, if_neg (Nat.not_lt_of_le within), unread]
    rfl
  | tagMismatch sized within read differ =>
    obtain ⟨status, hstatus⟩ := Option.ne_none_iff_exists'.mp read
    have hunit := Tag.size_mod ⟨h.memory.word block⟩
    have hfooter : Block.footer block (Tag.size ⟨h.memory.word block⟩) =
        block + Tag.size ⟨h.memory.word block⟩ - wordSize := by
      simp only [blockUnit] at hunit
      exact Block.footer_eq (by simp only [wordSize]; omega) (by omega)
    have hne : (⟨h.memory.word (block + Tag.size ⟨h.memory.word block⟩ - wordSize)⟩ : Tag) ≠
        ⟨h.memory.word block⟩ := fun heq => differ (congrArg Tag.bits heq)
    rw [checkBlock_of_fits sized hfits, if_neg (Nat.not_lt_of_le within), hstatus, hfooter]
    exact if_pos hne

/-- A block that no test of a check fails is a piece of a chain. -/
lemma flaw_or_whole (h : Arena σ) (block : Nat) :
    (∃ d, h.Flaw block d) ∨
      ∃ p : Piece, p.Whole ∧ h.memory.word block = p.bits ∧
        h.memory.word (block + p.size - wordSize) = p.bits ∧ block + p.size ≤ h.stop := by
  by_cases hsize : Tag.size ⟨h.memory.word block⟩ = 0
  · exact Or.inl ⟨_, .zeroSize hsize⟩
  rcases Nat.lt_or_ge h.stop (block + Tag.size ⟨h.memory.word block⟩) with hbeyond | hwithin
  · exact Or.inl ⟨_, .overrun hsize hbeyond⟩
  cases hstatus : Tag.status? ⟨h.memory.word block⟩ with
  | none => exact Or.inl ⟨_, .damagedTag hsize hwithin hstatus⟩
  | some status =>
    by_cases hfooter : h.memory.word (block + Tag.size ⟨h.memory.word block⟩ - wordSize) =
        h.memory.word block
    · have hbits := Tag.bits_eq hstatus
      exact Or.inr ⟨⟨_, status⟩, ⟨Nat.pos_of_ne_zero hsize, Tag.size_mod _⟩, hbits,
        hfooter.trans hbits, hwithin⟩
    · exact Or.inl ⟨_, .tagMismatch hsize hwithin (by simp [hstatus]) hfooter⟩

/-- A block does not pass exactly if it has a flaw. The check can name the flaw if the block ends
below the last address. -/
lemma checkBlock_error_iff {block : Nat} {e : CheckError} (hlimit : h.stop < Word.limit)
    (hlt : block < h.stop) :
    h.checkBlock block = .error e ↔
      (Word.limit ≤ block + Tag.size ⟨h.memory.word block⟩ ∧ e = .fault .addOverflow) ∨
      (block + Tag.size ⟨h.memory.word block⟩ < Word.limit ∧
        ∃ d, h.Flaw block d ∧ e = .damage d) := by
  constructor
  · intro hr
    rcases Nat.lt_or_ge (block + Tag.size ⟨h.memory.word block⟩) Word.limit with hfits | hover
    · rcases h.flaw_or_whole block with ⟨d, hflaw⟩ | ⟨p, hp, hhead, hfoot, hroom⟩
      · rw [hflaw.checkBlock_eq hfits] at hr
        exact Or.inr ⟨hfits, d, hflaw, (Except.error.inj hr).symm⟩
      · rw [(checkBlock_ok_iff hlimit).mpr ⟨p, hp, hhead, hfoot, hroom, rfl⟩] at hr
        exact absurd hr nofun
    · rw [checkBlock_of_overreach hover (by omega)] at hr
      exact Or.inl ⟨hover, (Except.error.inj hr).symm⟩
  · rintro (⟨hover, rfl⟩ | ⟨hfits, d, hflaw, rfl⟩)
    · exact checkBlock_of_overreach hover (by omega)
    · exact hflaw.checkBlock_eq hfits

/-- At the stop, only the sentinel there can be bad. -/
lemma rowsFrom_stop_error_iff {steps : Nat} {e : CheckError} :
    h.rowsFrom (steps + 1) h.stop = .error e ↔
      checkSentinel .stop ⟨h.memory.word h.stop⟩ = .error e := by
  rw [rowsFrom, if_pos (Nat.le_refl _)]
  exact error_bind_pure_iff

/-- Before the stop, the walk fails at the block or behind it. -/
lemma rowsFrom_step_error_iff {steps block : Nat} {e : CheckError} (hlimit : h.stop < Word.limit)
    (hlt : block < h.stop) :
    h.rowsFrom (steps + 1) block = .error e ↔
      h.checkBlock block = .error e ∨
      ∃ p : Piece, p.Whole ∧ h.memory.word block = p.bits ∧
        h.memory.word (block + p.size - wordSize) = p.bits ∧ block + p.size ≤ h.stop ∧
        h.rowsFrom steps (block + p.size) = .error e := by
  rw [rowsFrom, if_neg (Nat.not_le_of_lt hlt), error_bind_iff]
  refine or_congr_right ⟨?_, ?_⟩
  · rintro ⟨row, hrow, hr⟩
    obtain ⟨p, hp, hhead, hfoot, hroom, rfl⟩ := (checkBlock_ok_iff hlimit).mp hrow
    exact ⟨p, hp, hhead, hfoot, hroom, error_bind_pure_iff.mp hr⟩
  · rintro ⟨p, hp, hhead, hfoot, hroom, hr⟩
    exact ⟨_, (checkBlock_ok_iff hlimit).mpr ⟨p, hp, hhead, hfoot, hroom, rfl⟩,
      error_bind_pure_iff.mpr hr⟩

/-- The walk fails at the first block that does not pass, or at a bad end sentinel. -/
lemma rowsFrom_error_iff {steps block : Nat} {e : CheckError} (hlimit : h.stop < Word.limit)
    (hle : block ≤ h.stop) (hsteps : (h.stop - block) / blockUnit < steps) :
    h.rowsFrom steps block = .error e ↔
      ∃ pre, Tiles h.memory block pre ∧
        ((block + span pre < h.stop ∧ h.checkBlock (block + span pre) = .error e) ∨
          (block + span pre = h.stop ∧ checkSentinel .stop ⟨h.memory.word h.stop⟩ = .error e)) := by
  induction steps generalizing block with
  | zero => exact absurd hsteps (Nat.not_lt_zero _)
  | succ steps ih =>
    have hleft : ∀ p : Piece, p.Whole → block + p.size ≤ h.stop →
        (h.stop - (block + p.size)) / blockUnit < steps := by
      intro p hp hroom
      have hmin := hp.le
      simp only [minBlockSize, blockUnit] at hmin hsteps ⊢
      omega
    rcases Nat.eq_or_lt_of_le hle with rfl | hlt
    · rw [rowsFrom_stop_error_iff]
      constructor
      · exact fun hr => ⟨[], trivial, Or.inr ⟨rfl, hr⟩⟩
      · rintro ⟨pre, _, ⟨hbefore, _⟩ | ⟨_, hr⟩⟩
        · omega
        · exact hr
    · rw [rowsFrom_step_error_iff hlimit hlt]
      constructor
      · rintro (hblock | ⟨p, hp, hhead, hfoot, hroom, hr⟩)
        · exact ⟨[], trivial, Or.inl ⟨hlt, hblock⟩⟩
        · obtain ⟨pre, htiles, hends⟩ := (ih hroom (hleft p hp hroom)).mp hr
          refine ⟨p :: pre, ⟨hp, hhead, hfoot, htiles⟩, ?_⟩
          rwa [span_cons, ← Nat.add_assoc]
      · rintro ⟨_ | ⟨p, pre⟩, htiles, hends⟩
        · rw [span_nil, Nat.add_zero] at hends
          exact Or.inl (hends.resolve_right fun hstop => by omega).2
        · obtain ⟨hp, hhead, hfoot, htiles⟩ := htiles
          rw [span_cons, ← Nat.add_assoc] at hends
          have hroom : block + p.size ≤ h.stop := by omega
          exact Or.inr ⟨p, hp, hhead, hfoot, hroom,
            (ih hroom (hleft p hp hroom)).mpr ⟨pre, htiles, hends⟩⟩

/-- The three places where a check fails. -/
lemma check_error_iff [Segment σ] {e : CheckError} (hle : h.start ≤ h.stop)
    (hlimit : h.stop < Word.limit) (hcursor : ∀ c, h.placement.cursor = some c → h.start ≤ c) :
    h.check = .error e ↔
      checkSentinel .start ⟨h.memory.word (Word.backward h.start wordSize)⟩ = .error e ∨
      (∃ block, h.Intact block ∧ block < h.stop ∧ h.checkBlock block = .error e) ∨
      (h.Intact h.stop ∧ checkSentinel .stop ⟨h.memory.word h.stop⟩ = .error e) := by
  have hsteps : (h.stop - h.start) / blockUnit < h.walkLimit := by
    unfold walkLimit
    simp only [blockUnit]
    omega
  have hwalk := rowsFrom_error_iff (e := e) hlimit hle hsteps
  have hcheck : h.check = (checkSentinel .start ⟨h.memory.word (Word.backward h.start wordSize)⟩ >>=
      fun _ => h.rowsFrom h.walkLimit h.start >>=
        fun rows => pure (h.reportWith (h.placement.cursor.map fun c => c - h.start) rows)) := by
    rw [check_eq_bind, shownCursor_ok_iff.mpr ⟨hcursor, rfl⟩]
    rfl
  rw [hcheck, error_bind_iff]
  refine or_congr_right ⟨?_, ?_⟩
  · rintro ⟨_, hsentinel, hr⟩
    have hfirst := checkSentinel_ok_iff.mp hsentinel
    have hfails : h.rowsFrom h.walkLimit h.start = .error e := error_bind_pure_iff.mp hr
    obtain ⟨pre, htiles, ⟨hlt, hblock⟩ | ⟨hstop, hbad⟩⟩ := hwalk.mp hfails
    · exact Or.inl ⟨_, ⟨hfirst, pre, htiles, rfl⟩, hlt, hblock⟩
    · exact Or.inr ⟨⟨hfirst, pre, htiles, hstop⟩, hbad⟩
  · rintro (⟨block, ⟨hfirst, pre, htiles, rfl⟩, hlt, hblock⟩ | ⟨⟨hfirst, pre, htiles, hstop⟩, hbad⟩)
    · exact ⟨(), checkSentinel_ok_iff.mpr hfirst,
        error_bind_pure_iff.mpr (hwalk.mpr ⟨pre, htiles, Or.inl ⟨hlt, hblock⟩⟩)⟩
    · exact ⟨(), checkSentinel_ok_iff.mpr hfirst,
        error_bind_pure_iff.mpr (hwalk.mpr ⟨pre, htiles, Or.inr ⟨hstop, hbad⟩⟩)⟩

/-- A check faults exactly if it comes to a header that overreaches. -/
lemma check_fault_iff [Segment σ] {f : Fault} (hle : h.start ≤ h.stop)
    (hlimit : h.stop < Word.limit) (hcursor : ∀ c, h.placement.cursor = some c → h.start ≤ c) :
    h.check = .error (.fault f) ↔ h.Overreaches ∧ f = .addOverflow := by
  rw [check_error_iff hle hlimit hcursor]
  constructor
  · rintro (hstart | ⟨block, hintact, hlt, hblock⟩ | ⟨_, hstop⟩)
    · exact absurd (checkSentinel_error_iff.mp hstart).2 nofun
    · rcases (checkBlock_error_iff hlimit hlt).mp hblock with ⟨hover, heq⟩ | ⟨_, _, _, heq⟩
      · exact ⟨⟨block, hintact, hlt, hover⟩, CheckError.fault.inj heq⟩
      · exact absurd heq nofun
    · exact absurd (checkSentinel_error_iff.mp hstop).2 nofun
  · rintro ⟨⟨block, hintact, hlt, hover⟩, rfl⟩
    exact Or.inr (Or.inl ⟨block, hintact, hlt, checkBlock_of_overreach hover (by omega)⟩)

/-- Where no header overreaches, a check names what is wrong first. -/
lemma check_damage_iff [Segment σ] {d : Damage} (hle : h.start ≤ h.stop)
    (hlimit : h.stop < Word.limit) (hcursor : ∀ c, h.placement.cursor = some c → h.start ≤ c)
    (hshort : ¬h.Overreaches) : h.check = .error (.damage d) ↔ h.Finding d := by
  rw [check_error_iff hle hlimit hcursor]
  constructor
  · rintro (hstart | ⟨block, hintact, hlt, hblock⟩ | ⟨hintact, hstop⟩)
    · obtain ⟨hbad, heq⟩ := checkSentinel_error_iff.mp hstart
      exact CheckError.damage.inj heq ▸ .start hbad
    · rcases (checkBlock_error_iff hlimit hlt).mp hblock with ⟨_, heq⟩ | ⟨_, _, hflaw, heq⟩
      · exact absurd heq nofun
      · exact CheckError.damage.inj heq ▸ .block hintact hlt hflaw
    · obtain ⟨hbad, heq⟩ := checkSentinel_error_iff.mp hstop
      exact CheckError.damage.inj heq ▸ .stop hintact hbad
  · intro hfinding
    cases hfinding with
    | start bad => exact Or.inl (checkSentinel_error_iff.mpr ⟨bad, rfl⟩)
    | @block block _ intact before flaw =>
      have hfits : block + Tag.size ⟨h.memory.word block⟩ < Word.limit :=
        Nat.lt_of_not_le fun hover => hshort ⟨block, intact, before, hover⟩
      exact Or.inr (Or.inl ⟨block, intact, before, flaw.checkBlock_eq hfits⟩)
    | stop intact bad =>
      exact Or.inr (Or.inr ⟨intact, checkSentinel_error_iff.mpr ⟨bad, rfl⟩⟩)

end Arena

variable {σ : Type} [Segment σ]

/-- Whatever the memory holds, a check comes to an answer and names the first thing that is wrong
exactly if it comes to no header whose size leads past the last address. -/
theorem Heap.check_finds_iff (h : Heap σ) (hle : h.arena.start ≤ h.arena.stop)
    (hlimit : h.arena.stop < Word.limit)
    (hcursor : ∀ c, h.arena.placement.cursor = some c → h.arena.start ≤ c) :
    ((∀ f, h.check ≠ .error (.fault f)) ∧
      ∀ d, h.check = .error (.damage d) ↔ h.arena.Finding d) ↔ ¬h.arena.Overreaches := by
  constructor
  · rintro ⟨hanswers, _⟩ hover
    exact hanswers _ ((Arena.check_fault_iff hle hlimit hcursor).mpr ⟨hover, rfl⟩)
  · intro hshort
    refine ⟨fun f hfault => hshort ?_, fun d => Arena.check_damage_iff hle hlimit hcursor hshort⟩
    exact ((Arena.check_fault_iff hle hlimit hcursor).mp hfault).1

/-- The first header of a heap is overwritten with the largest size that does not lead past the last
address: the check says that the block runs over the end. -/
theorem Heap.check_finds_overrun : ∃ h poked : Heap (Reservation .common),
    (Heap.create (⟨0x100000, 65536, 0, 4096⟩ : Reservation .common) Reservation.blank
      Config.standard).map Prod.fst = .ok h ∧
    poked = ⟨h.arena.writeWord 0x100020 (Word.limit - 0x100040)⟩ ∧
    poked.arena.start ≤ poked.arena.stop ∧ poked.arena.stop < Word.limit ∧
    (∀ c, poked.arena.placement.cursor = some c → poked.arena.start ≤ c) ∧
    ¬poked.arena.Overreaches ∧
    ((∀ f, poked.check ≠ .error (.fault f)) ∧
      ∀ d, poked.check = .error (.damage d) ↔ poked.arena.Finding d) ∧
    poked.arena.Finding (.overrun 0 (Word.limit - 0x100040)) := by
  have hfacts : ((Heap.create (⟨0x100000, 65536, 0, 4096⟩ : Reservation .common) Reservation.blank
      Config.standard).map Prod.fst).toOption.map (fun h =>
        (h.arena.start, h.arena.stop, h.arena.placement.cursor,
          failure? (h.arena.writeWord 0x100020 (Word.limit - 0x100040)).check)) =
      some (0x100020, 0x1003e0, none, some (.damage (.overrun 0 (Word.limit - 0x100040)))) := by
    decide +kernel
  obtain ⟨h, hmade, hfacts⟩ := Option.map_eq_some_iff.mp hfacts
  obtain ⟨hstart, hfacts⟩ := Prod.mk.inj hfacts
  obtain ⟨hstop, hfacts⟩ := Prod.mk.inj hfacts
  obtain ⟨hcursor, hfails⟩ := Prod.mk.inj hfacts
  have hcheck := error_of_failure hfails
  generalize hpoked : h.arena.writeWord 0x100020 (Word.limit - 0x100040) = poked at hcheck
  have hle : poked.start ≤ poked.stop := by
    rw [← hpoked]
    change h.arena.start ≤ h.arena.stop
    omega
  have hlimit : poked.stop < Word.limit := by
    rw [← hpoked]
    change h.arena.stop < Word.limit
    simp only [Word.limit]
    omega
  have hnone : ∀ c, poked.placement.cursor = some c → poked.start ≤ c := by
    rw [← hpoked]
    exact fun c hc => absurd (hcursor.symm.trans hc) nofun
  have hshort : ¬poked.Overreaches := fun hover =>
    absurd (hcheck.symm.trans ((Arena.check_fault_iff hle hlimit hnone).mpr ⟨hover, rfl⟩)) nofun
  have hanswers := (Heap.check_finds_iff ⟨poked⟩ hle hlimit hnone).mpr hshort
  exact ⟨h, ⟨poked⟩, ok_of_toOption hmade, by rw [hpoked], hle, hlimit, hnone, hshort,
    hanswers, (hanswers.2 _).mp hcheck⟩

/-- With a size that does, the block runs over the end no less, but the check does not come to an
answer. -/
theorem Heap.check_not_finds : ∃ h poked : Heap (Reservation .common),
    (Heap.create (⟨0x100000, 65536, 0, 4096⟩ : Reservation .common) Reservation.blank
      Config.standard).map Prod.fst = .ok h ∧
    poked = ⟨h.arena.writeWord 0x100020 (Word.limit - 32)⟩ ∧
    poked.arena.start = 0x100020 ∧ poked.arena.stop = 0x1003e0 ∧
    poked.arena.placement.cursor = none ∧ poked.arena.Finding (.overrun 0 (Word.limit - 32)) ∧
    poked.check = .error (.fault .addOverflow) := by
  have hfacts : ((Heap.create (⟨0x100000, 65536, 0, 4096⟩ : Reservation .common) Reservation.blank
      Config.standard).map Prod.fst).toOption.map (fun h =>
        let poked := h.arena.writeWord 0x100020 (Word.limit - 32)
        ([poked.start, poked.stop, poked.memory.word (Word.backward poked.start wordSize),
          poked.memory.word poked.start], poked.placement.cursor, failure? poked.check)) =
      some ([0x100020, 0x1003e0, 1, Word.limit - 32], none, some (.fault .addOverflow)) := by
    decide +kernel
  obtain ⟨h, hmade, hfacts⟩ := Option.map_eq_some_iff.mp hfacts
  obtain ⟨hnumbers, hfacts⟩ := Prod.mk.inj hfacts
  obtain ⟨hcursor, hfails⟩ := Prod.mk.inj hfacts
  generalize hpoked : h.arena.writeWord 0x100020 (Word.limit - 32) = poked
    at hnumbers hcursor hfails
  simp only [List.cons.injEq, and_true] at hnumbers
  obtain ⟨hstart, hstop, hbefore, hheader⟩ := hnumbers
  have hsize : Tag.size ⟨poked.memory.word poked.start⟩ = Word.limit - 32 := by
    rw [hheader]
    decide +kernel
  have hover : poked.Flaw poked.start (.overrun (poked.start - poked.start)
      (Tag.size ⟨poked.memory.word poked.start⟩)) := by
    apply Arena.Flaw.overrun
    · rw [hsize]
      decide
    · rw [hsize, hstart, hstop]
      decide
  rw [hsize, Nat.sub_self] at hover
  refine ⟨h, ⟨poked⟩, ok_of_toOption hmade, by rw [hpoked], hstart, hstop, hcursor, ?_,
    error_of_failure hfails⟩
  refine .block ⟨hbefore, [], trivial, rfl⟩ ?_ hover
  change poked.start < poked.stop
  omega

end BlockHeap
