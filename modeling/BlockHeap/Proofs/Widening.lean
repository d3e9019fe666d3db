import BlockHeap.Proofs.Allocate
import BlockHeap.Proofs.Integrity

/-!
# Growing by any number of bytes

A loose provider may grant fewer bytes than were asked, or more, so growing asks again until the free
block at the end is large enough or a request is refused. Each round makes that block larger and
changes nothing else, provided that there is a block to write: either the chain ends in a free block
already, or the first bytes that are granted reach the next multiple of the block unit.
-/

namespace BlockHeap
namespace Arena

variable {σ : Type} [Segment σ] {P : σ → Prop} {h : Arena σ} {blocks : List Piece} {size n : Nat}

/-- The next request is granted, but with too few bytes for a free block at the end, where none is. -/
def Stuck (h : Arena σ) (size : Nat) (blocks : List Piece) : Prop :=
  freeTail blocks = 0 ∧
    (Segment.grow (max h.chunkSize size) h.segment h.memory).refusal = none ∧
    Word.floorUnit (Segment.stop (Segment.grow (max h.chunkSize size) h.segment h.memory).segment -
      wordSize) = h.stop

/-- The chain after a free block of `size` bytes was looked for, and grown if there was none: without
an answer, only the free block at the end got larger. -/
structure Widened (h : Arena σ) (size : Nat) (blocks : List Piece) (r : Option Nat)
    (blocks' : List Piece) : Prop where
  taken : taken h.start blocks' = taken h.start blocks
  short : r = none → ∃ gained, blocks' = restTail blocks ++ remnant (gained + freeTail blocks)
  long : ∀ b, r = some b →
    ∃ pre k post, blocks' = pre ++ ⟨k, .free⟩ :: post ∧ b = h.start + span pre ∧ size ≤ k

omit [Segment σ] in
/-- Growing may go on from a larger free block at the end. -/
lemma Widened.after {h' : Arena σ} {r : Option Nat} {blocks' : List Piece} {more : Nat}
    (hstart : h'.start = h.start)
    (hw : h'.Widened size (restTail blocks ++ [⟨more, .free⟩]) r blocks')
    (hmore : freeTail blocks ≤ more) : h.Widened size blocks r blocks' := by
  obtain ⟨htaken, hshort, hlong⟩ := hw
  rw [hstart] at htaken hlong
  refine ⟨?_, fun hr => ?_, hlong⟩
  · rw [htaken, taken_append, taken_restTail, taken_free, taken_nil, List.append_nil]
  · obtain ⟨gained, rfl⟩ := hshort hr
    refine ⟨gained + (more - freeTail blocks), ?_⟩
    rw [restTail_free, freeTail_free, Nat.add_assoc, Nat.sub_add_cancel hmore]

/-- Growing that is not stuck comes to its end with a free block or with a refusal, unless all of so
many requests are granted in vain. -/
theorem enlargeWithin_widens (rounds : Nat) (hP : Segment.Loose P) (hs : h.Sound P blocks)
    (hmoves : ¬h.Stuck size blocks) :
    (∃ r h' asked blocks', Leads P (enlargeWithin size rounds) h r h' asked blocks'
        (taken h.start blocks) ∧ h.Widened size blocks r blocks') ∨
      (enlargeWithin size rounds h).result = .error .endless := by
  induction rounds generalizing h blocks with
  | zero => exact Or.inr rfl
  | succ rounds ih =>
    by_cases hanswer : (Segment.grow (max h.chunkSize size) h.segment h.memory).refusal = none
    · -- the end of the arena moves up, or stays where it is
      obtain ⟨gained, hends⟩ : ∃ gained, Word.floorUnit (Segment.stop
          (Segment.grow (max h.chunkSize size) h.segment h.memory).segment - wordSize) =
          h.stop + gained := by
        refine Nat.exists_eq_add_of_le ?_
        rw [hs.ends]
        exact floorUnit_mono (Nat.sub_le_sub_right (hP.grow_granted _ _ hs.valid hanswer) _)
      have hpos : 0 < gained + freeTail blocks := by
        by_contra hzero
        refine hmoves ⟨by omega, hanswer, ?_⟩
        rw [hends]
        omega
      obtain ⟨h₁, hs₁, hakin, hspares, _, _, _, hrest⟩ :=
        enlargeWithin_granted rounds hP hs hanswer hends hpos
      by_cases hlong : size ≤ gained + freeTail blocks
      · obtain ⟨hruns, _⟩ := hrest _ rfl
        rw [if_pos hlong] at hruns
        have hw : h.Widened size blocks (some (h.start + span (restTail blocks)))
            (restTail blocks ++ [⟨gained + freeTail blocks, .free⟩]) := by
          refine ⟨?_, nofun, fun b hb => ⟨_, _, [], rfl, (Option.some.inj hb).symm, hlong⟩⟩
          rw [taken_append, taken_restTail, taken_free, taken_nil, List.append_nil]
        exact Or.inl ⟨_, h₁, _, _, ⟨hruns _ _ _ (Action.Runs.pure _ _), hs₁, hakin, hspares⟩, hw⟩
      · have hmoves₁ : ¬h₁.Stuck size (restTail blocks ++ [⟨gained + freeTail blocks, .free⟩]) := by
          rintro ⟨hnone, _⟩
          rw [freeTail_free] at hnone
          omega
        obtain ⟨hruns, hfaults⟩ := hrest _ rfl
        rw [if_neg hlong] at hruns hfaults
        rcases ih hs₁ hmoves₁ with ⟨r, h', asked, blocks', hl, hw⟩ | hendless
        · have hspared := hl.spares
          rw [taken_append, taken_free, taken_nil, List.append_nil, taken_restTail, hakin.start]
            at hspared
          exact Or.inl ⟨r, h', _, blocks', ⟨hruns _ _ _ hl.runs, hl.sound, hakin.trans hl.akin,
            hspares.trans hspared (List.Subset.refl _)⟩,
            hw.after hakin.start (Nat.le_add_left _ _)⟩
        · exact Or.inr (hfaults _ hendless)
    · refine Or.inl ⟨none, _, _, blocks, enlargeWithin_refused rounds hP hs hanswer, rfl,
        fun _ => ⟨0, ?_⟩, nofun⟩
      rw [Nat.zero_add, restTail_remnant fun p hp => hs.chained.tiles.whole hp]

theorem obtain_widens (hP : Segment.Loose P) (hs : h.Sound P blocks)
    (hmoves : h.search size blocks = none → ¬h.Stuck size blocks) :
    (∃ r h' asked blocks', Leads P (obtain size) h r h' asked blocks' (taken h.start blocks) ∧
        h.Widened size blocks r blocks') ∨
      (obtain size h).result = .error .endless := by
  have hfind := find_runs size hs.toLaid fun c hc => Or.inl (hs.cursor c hc)
  have hs₁ := hs.searched size
  have hakin : h.Akin (h.withPlacement (h.searched size blocks)) :=
    ⟨rfl, rfl, rfl, rfl, searched_policy⟩
  unfold obtain
  cases hfound : h.search size blocks with
  | some b =>
    rw [hfound] at hfind
    exact Or.inl ⟨some b, _, _, blocks, ⟨hfind.andThen (Action.Runs.pure _ _), hs₁, hakin,
      fun _ _ _ _ _ => rfl⟩, rfl, nofun, fun c hc => by
        obtain rfl := Option.some.inj hc
        exact search_some hfound⟩
  | none =>
    rw [hfound] at hfind
    rcases enlargeWithin_widens Word.limit hP hs₁ (hmoves hfound) with
      ⟨r, h', asked, blocks', hl, hw⟩ | hendless
    · exact Or.inl ⟨r, h', _, blocks', ⟨hfind.andThen hl.runs, hl.sound, hakin.trans hl.akin,
        hl.spares⟩, hw.taken, hw.short, hw.long⟩
    · exact Or.inr (hfind.bindError hendless)

/-- What a request for `n` bytes over a loose provider should leave behind: the arena is well formed,
each block that was allocated keeps its bytes, tags included, and is allocated still, next to the one
that is handed out, if one is; and if none is, only free bytes were added at the end. -/
def Survives (h : Arena σ) (n : Nat) (blocks : List Piece) (r : Option Nat) (h' : Arena σ) : Prop :=
  ∃ blocks', h'.Formed blocks' ∧
    (taken h'.start blocks').Perm (Block.handed r n ++ taken h.start blocks) ∧
    h.Spares h' (taken h.start blocks) ∧
    (r = none → ∃ gained, blocks' = restTail blocks ++ remnant (gained + freeTail blocks))

/-- A request for `n` bytes asks the segment for more, which is granted with too few bytes for a free
block at the end, where none is. -/
def Starved (h : Arena σ) (n : Nat) (blocks : List Piece) : Prop :=
  n ≠ 0 ∧ ∃ size, Block.sizeFor n = some size ∧ h.search size blocks = none ∧ h.Stuck size blocks

lemma Sound.survives (hs : h.Sound P blocks) (n : Nat) : h.Survives n blocks none h := by
  refine ⟨blocks, hs.formed, List.Perm.refl _, Spares.refl h _, fun _ => ⟨0, ?_⟩⟩
  rw [Nat.zero_add, restTail_remnant fun p hp => hs.chained.tiles.whole hp]

theorem allocate_survives (hP : Segment.Loose P) (hs : h.Sound P blocks)
    (hfed : ¬h.Starved n blocks) :
    (∃ r h' asked, Action.Runs (allocate n) h r h' asked ∧ h.Survives n blocks r h') ∨
      (allocate n h).result = .error .endless := by
  have hnote := Action.Runs.note .info (.allocate n) h
  unfold allocate
  by_cases hzero : n = 0
  · refine Or.inl ⟨none, h, [], hnote.andThen ?_, hs.survives n⟩
    rw [if_pos hzero]
    exact Action.Runs.pure _ _
  simp only [if_neg hzero]
  cases hsized : Block.sizeFor n with
  | none => exact Or.inl ⟨none, h, [], hnote.andThen (Action.Runs.pure _ _), hs.survives n⟩
  | some size =>
    have hmoves : h.search size blocks = none → ¬h.Stuck size blocks :=
      fun hmiss hstuck => hfed ⟨hzero, size, hsized, hmiss, hstuck⟩
    rcases obtain_widens hP hs hmoves with ⟨r, h₁, asked, blocks₁, hl, hw⟩ | hendless
    · cases r with
      | none =>
        refine Or.inl ⟨none, h₁, asked, hnote.andThen (hl.runs.thenQuiet (Action.Runs.pure _ _)),
          blocks₁, hl.sound.formed, ?_, hl.spares, hw.short⟩
        rw [hl.akin.start, hw.taken]
        exact List.Perm.refl _
      | some b =>
        obtain ⟨pre, k, post, rfl, rfl, hle⟩ := hw.long b rfl
        obtain ⟨m, hcarve, _⟩ := hl.sound.handOut_leads hsized hle
        have hunit := (Block.sizeFor_spec hsized).1
        have hwhole := hl.sound.toLaid.whole.2
        have htaken := hw.taken
        rw [hl.akin.start, htaken] at hcarve
        refine Or.inl ⟨_, h₁.withMemory m, asked, hnote.andThen (hl.runs.thenQuiet hcarve.runs),
          _, hcarve.sound.formed, ?_, hl.spares.trans hcarve.spares (List.Subset.refl _), nofun⟩
        rw [withMemory_start, hl.akin.start, ← htaken]
        simp only [taken_append, taken_free, span_carved, taken_carved hunit hwhole hle, Block.handed,
          Block.sizeFor_eq hsized, Option.toList_some, List.map_cons, List.map_nil, Nat.add_assoc,
          List.singleton_append, List.append_assoc]
        exact List.perm_middle
    · exact Or.inr (hnote.bindError (Action.result_of_error hendless))

end Arena
end BlockHeap
