import BlockHeap.Proofs.Widening

/-!
# Torn chains

When growing is stuck, it writes a free block of no bytes at the end, and the footer of that block is
the footer of the last allocated one. Later rounds may give the new block bytes, but none restores
that footer, so no chain fits the memory any more. Together with what growing does elsewhere, this
says exactly when an arena over a loose provider survives a request.
-/

namespace BlockHeap

variable {σ : Type} [Segment σ]

namespace Arena

/-- The allocated block that ends at `s` has lost its footer, and what follows it up to the end is a
free block, or nothing. Below that footer the arena's bytes are those of `m`. -/
structure Torn (P : σ → Prop) (m : Memory) (s : Nat) (h : Arena σ) : Prop extends h.Sited where
  valid : P h.segment
  begun : h.start + minBlockSize ≤ s
  unit : s % blockUnit = 0
  le_stop : s ≤ h.stop
  stop_le : h.stop + wordSize ≤ Segment.stop h.segment
  ends : h.stop = Word.floorUnit (Segment.stop h.segment - wordSize)
  kept : ∀ a, h.start ≤ a → a + wordSize < s → h.memory.read a = m.read a
  cleared : h.memory.word (s - wordSize) = 0
  header : s < h.stop → h.memory.word s = h.stop - s
  footer : h.memory.word (h.stop - wordSize) = h.stop - s

variable {P : σ → Prop} {h h' : Arena σ} {m : Memory} {blocks pre : List Piece} {s stop size n : Nat}

/-- The free block that a round goes on from: the one behind the torn block, or none behind an
allocated block. -/
lemma lastTorn_runs {α : Type} {f : Nat × Nat → Action σ α} {x : α} (hs : h.Sited)
    (hbegun : h.start + minBlockSize ≤ s) (hunit : (h.stop - s) % blockUnit = 0) (hle : s ≤ h.stop)
    (hup : h.stop ≤ stop) (hroom : stop ≤ Segment.stop h.segment)
    (hlast : h.memory.word (h.stop - wordSize) = h.stop - s ∨
      s = h.stop ∧ Tag.isFree ⟨h.memory.word (h.stop - wordSize)⟩ = .ok false)
    (hf : Action.Runs (f (s, stop - s)) h x h' []) :
    Action.Runs (do
      let before ← Block.tagBefore h.stop
      let last ←
        if ← before.isFree then do
          let block ← Block.previous h.stop
          pure (block, ← Word.add (stop - h.stop) before.size)
        else pure (h.stop, stop - h.stop)
      f last) h x h' [] := by
  have hlt := hs.stop_lt
  simp only [minBlockSize] at hbegun
  have hbefore : Action.Runs (Block.tagBefore h.stop) h ⟨h.memory.word (h.stop - wordSize)⟩ h [] := by
    have hback : Word.backward h.stop wordSize = h.stop - wordSize :=
      Word.backward_of_le (by simp only [wordSize]; omega) (by omega)
    unfold Block.tagBefore
    rw [hback]
    exact hs.load_runs (Or.inl (by simp only [wordSize]; omega)) (by simp only [wordSize]; omega)
  apply hbefore.andThen
  rcases hlast with hfree | ⟨rfl, hallocated⟩
  · rw [hfree] at hbefore ⊢
    have hsize : Tag.size ⟨h.stop - s⟩ = h.stop - s := Tag.size_add_bits hunit .free
    have hprevious : Action.Runs (Block.previous h.stop) h s h [] := by
      unfold Block.previous
      apply hbefore.andThen
      rw [hsize, Word.backward_of_le (Nat.sub_le _ _) (by omega), Nat.sub_sub_self hle]
      exact Action.Runs.pure _ _
    apply (Action.Runs.lift (Tag.isFree_of_mod hunit) h).andThen
    rw [if_pos rfl, hsize]
    apply hprevious.andThen
    apply (Action.Runs.lift (Word.add_of_lt (by omega)) h).andThen
    rw [Nat.sub_add_sub_cancel hup hle]
    exact (Action.Runs.pure _ _).andThen hf
  · apply (Action.Runs.lift hallocated h).andThen
    exact (Action.Runs.pure _ _).andThen hf

/-- What is annexed at `s` becomes one free block, whose footer is the one before `s` if it has no
bytes. -/
lemma annex_tears (hs : h.Sited) (hvalid : P h.segment) (hbegun : h.start + minBlockSize ≤ s)
    (hunit : s % blockUnit = 0) (hle : s ≤ h.stop) (hup : h.stop ≤ stop)
    (hends : stop = Word.floorUnit (Segment.stop h.segment - wordSize))
    (hroom : stop + wordSize ≤ Segment.stop h.segment)
    (hkept : ∀ a, h.start ≤ a → a + wordSize < s → h.memory.read a = m.read a)
    (hcleared : stop = s ∨ h.memory.word (s - wordSize) = 0)
    (hlast : h.memory.word (h.stop - wordSize) = h.stop - s ∨
      s = h.stop ∧ Tag.isFree ⟨h.memory.word (h.stop - wordSize)⟩ = .ok false)
    (hmod : h.stop % blockUnit = 0) :
    ∃ h', Action.Runs annex h (s, stop - s) h' [] ∧ h'.Torn P m s ∧ h.Akin h' ∧ h'.stop = stop := by
  have hlt := hs.stop_lt
  have hstopmod := floorUnit_mod (Segment.stop h.segment - wordSize)
  rw [← hends] at hstopmod
  simp only [blockUnit, minBlockSize, wordSize] at *
  have hmark := Block.mark_stores (p := ⟨stop - s, .free⟩) s hs
    (by simp only [blockUnit]; omega) (by omega) (by simp only [wordSize]; omega)
    (by simp only [wordSize]; omega) (by simp only; omega)
  have hstore := (hs.withMemory (h.memory.mark s ⟨stop - s, .free⟩)).store_runs (a := stop) .sentinel
    (Or.inl (by simp only [withMemory_start]; omega))
    (by simp only [withMemory_segment, wordSize]; omega)
  refine ⟨(h.withMemory ((h.memory.mark s ⟨stop - s, .free⟩).setWord stop Tag.sentinel.bits)).withStop
    stop, ?_, ?_, ⟨rfl, rfl, rfl, rfl, rfl⟩, rfl⟩
  · unfold annex
    apply (Action.Runs.get h).andThen
    apply (Action.Runs.lift (endSentinel_eq (by simp only [wordSize]; omega)) h).andThen
    simp only [wordSize, ← hends]
    apply (Action.Runs.lift (Word.sub_of_le hup) h).andThen
    refine lastTorn_runs hs (by simp only [minBlockSize]; omega) (by simp only [blockUnit]; omega) hle
      hup (by omega) hlast ?_
    apply hmark.andThen
    apply hstore.andThen
    refine (Action.Runs.modify rfl rfl).andThen ?_
    exact Action.Runs.pure _ _
  · have hbits : (⟨stop - s, .free⟩ : Piece).bits = stop - s := rfl
    have hfoot : s + (stop - s) - 8 = stop - 8 := by omega
    refine ⟨⟨hs.aligned, hs.base_lt, hs.stop_lt⟩, hvalid, hbegun, hunit, Nat.le_trans hle hup, hroom,
      hends, ?_, ?_, ?_, ?_⟩
    · intro a ha ha'
      change (Memory.setWord _ _ _).read a = _
      simp only [wordSize] at ha'
      rw [Memory.read_setWord, if_neg (by omega), Memory.read_mark (by omega)
        (by simp only [wordSize]; omega), hkept a ha ha']
    · change (Memory.setWord _ _ _).word (s - 8) = 0
      rw [Memory.word_setWord_of_disjoint (by simp only [wordSize]; omega), Memory.mark, hbits]
      simp only [wordSize, hfoot]
      by_cases hmoved : stop = s
      · rw [hmoved, Nat.sub_self, Memory.word_setWord, Nat.zero_mod]
      · rw [Memory.word_setWord_of_disjoint (by simp only [wordSize]; omega),
          Memory.word_setWord_of_disjoint (by simp only [wordSize]; omega)]
        exact hcleared.resolve_left hmoved
    · intro hmoved
      change s < stop at hmoved
      change (Memory.setWord _ _ _).word s = stop - s
      rw [Memory.word_setWord_of_disjoint (by simp only [wordSize]; omega), Memory.mark, hbits]
      simp only [wordSize, hfoot]
      rw [Memory.word_setWord_of_disjoint (by simp only [wordSize]; omega), Memory.word_setWord,
        Nat.mod_eq_of_lt (by omega)]
    · change (Memory.setWord _ _ _).word (stop - 8) = stop - s
      rw [Memory.word_setWord_of_disjoint (by simp only [wordSize]; omega), Memory.mark, hbits]
      simp only [wordSize, hfoot]
      rw [Memory.word_setWord, Nat.mod_eq_of_lt (by omega)]

/-- The first round of growing that is stuck tears the chain. -/
lemma Sound.tears (hP : Segment.Loose P) (hs : h.Sound P blocks) (hstuck : h.Stuck size blocks) :
    ∃ h', Action.Runs annex (h.answered (Segment.grow (max h.chunkSize size) h.segment h.memory))
        (h.stop, 0) h' [] ∧ h'.Torn P h.memory h.stop ∧ h.Akin h' := by
  obtain ⟨hnone, hanswer, hends⟩ := hstuck
  have hvalid := hP.grow_valid (max h.chunkSize size) h.memory hs.valid
  have hbase := hP.grow_start (max h.chunkSize size) h.memory hs.valid
  have hup := hP.grow_granted (max h.chunkSize size) h.memory hs.valid hanswer
  have hkept := hP.grow_kept (max h.chunkSize size) h.memory hs.valid
  generalize Segment.grow (max h.chunkSize size) h.segment h.memory = move at *
  have hfirst := hs.toSited.firstWord_le
  have hle := hs.stop_le
  have hfloor := hs.floor_le
  have hstart := hs.start_lt
  have hmod := hs.stop_mod
  have hlaid := hs.toLaid.answered move hbase (by omega) (hP.stop_lt hvalid) fun a ha ha' =>
    hkept a (by omega) (by omega)
  have hseam : (h.answered move).Laid (blocks ++ []) := by rwa [List.append_nil]
  have hlast := hseam.chained.word_before
  change move.memory.word (h.start + span blocks - wordSize) = _ at hlast
  rw [hs.stop_eq] at hlast
  have hallocated : Tag.isFree ⟨move.memory.word (h.stop - wordSize)⟩ = .ok false := by
    rw [hlast, lastBits_isFree fun p hp => hs.chained.tiles.whole hp, hnone]
    rfl
  obtain ⟨h', hruns, htorn, hakin, _⟩ := annex_tears hlaid.toSited hvalid
    (Nat.le_trans hstart hfloor) hmod (Nat.le_refl h.stop) (Nat.le_refl h.stop) hends.symm
    hlaid.stop_le (fun a (ha : h.start ≤ a) ha' => hkept a (by omega) (by omega)) (Or.inl rfl)
    (Or.inr ⟨rfl, hallocated⟩) hmod
  have hsame : h.Akin (h.answered move) := ⟨rfl, rfl, rfl, rfl, rfl⟩
  rw [Nat.sub_self] at hruns
  exact ⟨h', hruns, htorn, hsame.trans hakin⟩

/-- What a segment does above its break leaves the bytes of a torn chain alone. -/
lemma Torn.answered_kept {move : Segment.Move σ} (ht : h.Torn P m s)
    (hkept : ∀ a, Segment.firstWord h.segment ≤ a → a < Segment.stop h.segment →
      move.memory.read a = h.memory.read a) :
    (∀ a, h.start ≤ a → a + wordSize < s → move.memory.read a = m.read a) ∧
      move.memory.word (s - wordSize) = 0 ∧ (s < h.stop → move.memory.word s = h.stop - s) ∧
      move.memory.word (h.stop - wordSize) = h.stop - s := by
  have hfirst := ht.toSited.firstWord_le
  have hbegun := ht.begun
  have hle := ht.le_stop
  have hroom := ht.stop_le
  have hwords : ∀ a, h.start ≤ a → a + wordSize ≤ Segment.stop h.segment →
      move.memory.word a = h.memory.word a := fun a ha ha' =>
    Memory.word_congr fun b hb hb' => hkept b (by omega) (by omega)
  simp only [minBlockSize, wordSize] at *
  refine ⟨fun a ha ha' => ?_, ?_, fun hmoved => ?_, ?_⟩
  · rw [hkept a (by omega) (by omega), ht.kept a ha ha']
  · rw [hwords _ (by omega) (by omega)]
    exact ht.cleared
  · rw [hwords _ (by omega) (by omega)]
    exact ht.header hmoved
  · rw [hwords _ (by omega) (by omega)]
    exact ht.footer

/-- A torn chain stays torn when a request is refused. -/
lemma Torn.denied (hP : Segment.Loose P) (ht : h.Torn P m s)
    (hanswer : (Segment.grow n h.segment h.memory).refusal ≠ none) :
    (h.answered (Segment.grow n h.segment h.memory)).Torn P m s := by
  have hvalid := hP.grow_valid n h.memory ht.valid
  have hbase := hP.grow_start n h.memory ht.valid
  have hstop := hP.grow_refused n h.memory ht.valid hanswer
  have hroom := ht.stop_le
  have hends := ht.ends
  have hbelow := ht.base_lt
  obtain ⟨hkept, hcleared, hheader, hfooter⟩ :=
    ht.answered_kept (hP.grow_kept n h.memory ht.valid)
  rw [← hbase] at hbelow
  rw [← hstop] at hroom hends
  exact ⟨⟨ht.aligned, hbelow, hP.stop_lt hvalid⟩, hvalid, ht.begun, ht.unit, ht.le_stop, hroom, hends,
    hkept, hcleared, hheader, hfooter⟩

/-- A torn chain stays torn when a request is granted, and the free block behind it grows. -/
lemma Torn.granted (hP : Segment.Loose P) (ht : h.Torn P m s)
    (hanswer : (Segment.grow n h.segment h.memory).refusal = none) :
    ∃ h', Action.Runs annex (h.answered (Segment.grow n h.segment h.memory)) (s, h'.stop - s) h' [] ∧
      h'.Torn P m s ∧ h.Akin h' := by
  have hvalid := hP.grow_valid n h.memory ht.valid
  have hbase := hP.grow_start n h.memory ht.valid
  have hup := hP.grow_granted n h.memory ht.valid hanswer
  obtain ⟨hkept, hcleared, _, hfooter⟩ := ht.answered_kept (hP.grow_kept n h.memory ht.valid)
  generalize Segment.grow n h.segment h.memory = move at *
  have hbelow := ht.base_lt
  have hroom := ht.stop_le
  have hmod := floorUnit_mod (Segment.stop h.segment - wordSize)
  rw [← ht.ends] at hmod
  have hmoved : h.stop ≤ Word.floorUnit (Segment.stop move.segment - wordSize) := by
    rw [ht.ends]
    exact floorUnit_mono (Nat.sub_le_sub_right hup _)
  have hfloor : Word.floorUnit (Segment.stop move.segment - wordSize) ≤
      Segment.stop move.segment - wordSize := Nat.div_mul_le_self _ _
  rw [← hbase] at hbelow
  obtain ⟨h', hruns, htorn, hakin, hstop⟩ := annex_tears (h := h.answered move)
    ⟨ht.aligned, hbelow, hP.stop_lt hvalid⟩ hvalid ht.begun ht.unit ht.le_stop hmoved rfl
    (by change _ ≤ Segment.stop move.segment; omega) hkept (Or.inr hcleared) (Or.inl hfooter) hmod
  have hsame : h.Akin (h.answered move) := ⟨rfl, rfl, rfl, rfl, rfl⟩
  rw [← hstop] at hruns
  exact ⟨h', hruns, htorn, hsame.trans hakin⟩

/-- Growing goes on behind a torn block, and never mends it. -/
theorem Torn.enlargeWithin_tears (rounds : Nat) (hP : Segment.Loose P) (ht : h.Torn P m s) :
    (∃ r h' asked, Action.Runs (enlargeWithin size rounds) h r h' asked ∧ h'.Torn P m s ∧
        h.Akin h' ∧ ∀ b, r = some b → b = s ∧ size ≤ h'.stop - s) ∨
      (enlargeWithin size rounds h).result = .error .endless := by
  induction rounds generalizing h with
  | zero => exact Or.inr rfl
  | succ rounds ih =>
    have hstart := hP.grow_start (max h.chunkSize size) h.memory ht.valid
    by_cases hanswer : (Segment.grow (max h.chunkSize size) h.segment h.memory).refusal = none
    · obtain ⟨h₁, hannex, ht₁, hakin⟩ := ht.granted hP hanswer
      obtain ⟨hruns, hfaults⟩ := enlargeWithin_goes rounds hstart hanswer hannex rfl
      by_cases hlong : size ≤ h₁.stop - s
      · rw [if_pos hlong] at hruns
        exact Or.inl ⟨some s, h₁, _, hruns _ _ _ (Action.Runs.pure _ _), ht₁, hakin,
          fun b hb => ⟨(Option.some.inj hb).symm, hlong⟩⟩
      · rw [if_neg hlong] at hruns hfaults
        rcases ih ht₁ with ⟨r, h', asked, hgo, ht', hakin', hfound⟩ | hendless
        · exact Or.inl ⟨r, h', _, hruns _ _ _ hgo, ht', hakin.trans hakin', hfound⟩
        · exact Or.inr (hfaults _ hendless)
    · exact Or.inl ⟨none, _, _, enlargeWithin_stops rounds hstart hanswer, ht.denied hP hanswer,
        ⟨rfl, rfl, rfl, rfl, rfl⟩, nofun⟩

/-- What is carved out of the free block behind a torn one leaves everything before it alone. -/
lemma Torn.carve_runs (ht : h.Torn P m s) (hpos : 0 < size) (hsize : size % blockUnit = 0)
    (hle : size ≤ h.stop - s) :
    ∃ m', Action.Runs (carve s size) h () (h.withMemory m') [] ∧
      ∀ a, a < s → m'.read a = h.memory.read a := by
  have hmod := floorUnit_mod (Segment.stop h.segment - wordSize)
  rw [← ht.ends] at hmod
  have hunit := ht.unit
  have hbegun := ht.begun
  have hroom := ht.stop_le
  have hlt := ht.stop_lt
  simp only [blockUnit, minBlockSize] at *
  have htotal : Piece.Whole ⟨h.stop - s, .allocated⟩ :=
    ⟨by simp only; omega, by simp only [blockUnit]; omega⟩
  have hheld := ht.toSited.header_runs (a := s) (by omega) (by simp only [wordSize] at *; omega)
  rw [ht.header (by omega), show Tag.size ⟨h.stop - s⟩ = h.stop - s from
    Tag.size_add_bits htotal.2 .free] at hheld
  have hadd : Word.add size 32 = .ok (size + 32) := Word.add_of_lt (by omega)
  unfold carve
  simp only [minBlockSize]
  by_cases hsplit : size + 32 ≤ h.stop - s
  · have hcut : Piece.Whole ⟨size, .allocated⟩ := ⟨hpos, hsize⟩
    have hrest : Piece.Whole ⟨h.stop - s - size, .free⟩ :=
      ⟨by simp only; omega, by simp only [blockUnit]; omega⟩
    have hmark := Block.mark_runs s ht.toSited hcut (by omega) (by simp only; omega)
    have hsame := Memory.mark_sameOutside s hcut h.memory
    generalize h.memory.mark s ⟨size, .allocated⟩ = m₁ at hmark hsame
    have hmarkRest := Block.mark_runs (s + size) (ht.toSited.withMemory m₁) hrest
      (by simp only [withMemory_start]; omega) (by simp only [withMemory_segment]; omega)
    have hsameRest := Memory.mark_sameOutside (s + size) hrest m₁
    refine ⟨_, ?_, fun a ha => (hsameRest a (Or.inl (by omega))).trans (hsame a (Or.inl ha))⟩
    apply hheld.andThen
    apply (Action.Runs.lift hadd h).andThen
    rw [if_pos hsplit]
    have hleft : Word.sub (h.stop - s) size = .ok (h.stop - s - size) := Word.sub_of_le (by omega)
    apply (Action.Runs.diag _ ((Action.Runs.lift hleft h).andThen (Action.Runs.pure _ _))).andThen
    apply hmark.andThen
    rw [Word.forward_of_lt (by omega)]
    exact hmarkRest
  · refine ⟨_, ?_, fun a ha => Memory.mark_sameOutside s htotal h.memory a (Or.inl ha)⟩
    apply hheld.andThen
    apply (Action.Runs.lift hadd h).andThen
    rw [if_neg hsplit]
    exact Block.mark_runs s ht.toSited htotal (by omega) (by simp only; omega)

/-- No chain fits a memory in which only the footer of the last allocated block is gone. -/
lemma Laid.not_formed (hl : h.Laid blocks) (hnone : freeTail blocks = 0) (hstart : h'.start = h.start)
    (hle : h.stop ≤ h'.stop)
    (hkept : ∀ a, h.start ≤ a → a + wordSize < h.stop → h'.memory.read a = h.memory.read a)
    (hcleared : h'.memory.word (h.stop - wordSize) = 0) (blocks' : List Piece) :
    ¬h'.Formed blocks' := by
  intro hf
  have hstop := hl.stop_eq
  have hlands := hf.lands
  have htiles := hf.tiles
  have hbefore := hf.before
  have hafter := hf.after
  rw [hstart] at hlands htiles hbefore
  rw [← hlands] at hafter
  have hheads : ∀ b ∈ heads h.start blocks, h'.memory.word b = h.memory.word b := by
    intro b hb
    obtain ⟨pre, p, post, rfl, rfl⟩ := mem_heads_iff.mp hb
    have hblock := hl.block_le
    have hp := hl.whole.le
    simp only [minBlockSize] at hp
    exact Memory.word_congr fun a ha ha' => hkept a (by omega) (by simp only [wordSize] at *; omega)
  -- the headers lead along the old chain to its end, where the last footer is missing
  obtain ⟨rest, rfl⟩ := hl.chained.tiles.continued htiles hheads (by omega)
  have hlast := (Chained.mk hbefore htiles hafter).word_before
  rw [hstop, hcleared] at hlast
  have hallocated := lastBits_isFree fun p hp => hl.chained.tiles.whole hp
  rw [← hlast, hnone] at hallocated
  exact absurd hallocated (by decide)

/-- Growing that is stuck tears the chain in its first round and goes on from there. -/
lemma Sound.enlarge_tears (hP : Segment.Loose P) (hs : h.Sound P blocks)
    (hstuck : h.Stuck size blocks) (hpos : 0 < size) :
    (∃ r h' asked, Action.Runs (enlarge size) h r h' asked ∧ h'.Torn P h.memory h.stop ∧ h.Akin h' ∧
        ∀ b, r = some b → b = h.stop ∧ size ≤ h'.stop - h.stop) ∨
      (enlarge size h).result = .error .endless := by
  have hloop : enlarge (σ := σ) size = enlargeWithin size ((Word.limit - 1) + 1) := rfl
  have hbase := hP.grow_start (max h.chunkSize size) h.memory hs.valid
  obtain ⟨h₁, hannex, ht, hakin⟩ := hs.tears hP hstuck
  obtain ⟨hruns, hfaults⟩ := enlargeWithin_goes (Word.limit - 1) hbase hstuck.2.1 hannex rfl
  rw [if_neg (by omega)] at hruns hfaults
  rw [hloop]
  rcases ht.enlargeWithin_tears (Word.limit - 1) hP with
    ⟨r, h', asked, hgo, ht', hakin', hfound⟩ | hendless
  · exact Or.inl ⟨r, h', _, hruns _ _ _ hgo, ht', hakin.trans hakin', hfound⟩
  · exact Or.inr (hfaults _ hendless)

/-- A request that starves leaves no chain at all. -/
theorem allocate_tears (hP : Segment.Loose P) (hs : h.Sound P blocks) (hstarved : h.Starved n blocks) :
    (∃ r h' asked, Action.Runs (allocate n) h r h' asked ∧ ∀ blocks', ¬h'.Formed blocks') ∨
      (allocate n h).result = .error .endless := by
  obtain ⟨hzero, size, hsized, hmiss, hstuck⟩ := hstarved
  obtain ⟨hunit, hroom, _, _⟩ := Block.sizeFor_spec hsized
  simp only [wordSize] at hroom
  have hnote := Action.Runs.note .info (.allocate n) h
  have hfind := find_runs size hs.toLaid fun c hc => Or.inl (hs.cursor c hc)
  rw [hmiss] at hfind
  unfold allocate
  simp only [if_neg hzero, hsized]
  rcases (hs.searched size).enlarge_tears hP hstuck (by omega) with
    ⟨r, h₁, asked, henlarge, ht, hakin, hfound⟩ | hendless
  · have hobtain : Action.Runs (obtain size) h r h₁ asked := hfind.andThen henlarge
    have hbegun := ht.begun
    simp only [withPlacement_memory, withPlacement_stop] at ht hfound
    have hstart : h₁.start = h.start := hakin.start
    rw [hstart] at hbegun
    simp only [minBlockSize, withPlacement_stop] at hbegun
    cases r with
    | none =>
      refine Or.inl ⟨none, h₁, asked, hnote.andThen (hobtain.thenQuiet (Action.Runs.pure _ _)), ?_⟩
      exact hs.toLaid.not_formed hstuck.1 hstart ht.le_stop
        (fun a ha ha' => ht.kept a (by omega) ha') ht.cleared
    | some b =>
      obtain ⟨rfl, hlong⟩ := hfound b rfl
      obtain ⟨m, hcarve, hsame⟩ := ht.carve_runs (by omega) hunit hlong
      have hheld := (ht.toSited.withMemory m).header_runs (a := h.stop)
        (by simp only [withMemory_start]; omega)
        (by simp only [withMemory_segment, wordSize] at *; have := ht.stop_le; omega)
      refine Or.inl ⟨_, h₁.withMemory m, asked, hnote.andThen (hobtain.thenQuiet (hcarve.andThen
        ((Action.Runs.diag _ (hheld.andThen (Action.Runs.pure _ _))).andThen
          (Action.Runs.pure _ _)))), ?_⟩
      refine hs.toLaid.not_formed hstuck.1 hstart ht.le_stop (fun a ha ha' => ?_) ?_
      · exact (hsame a (by omega)).trans (ht.kept a (by omega) ha')
      · rw [← ht.cleared]
        exact Memory.word_congr fun a _ ha => hsame a (by simp only [wordSize] at ha; omega)
  · exact Or.inr (hnote.bindError (Action.result_of_error (hfind.bindError hendless)))

end Arena

/-- A well formed heap over a provider that may grant any number of bytes survives a request for `n`
bytes exactly if the request does not starve: a call that returns leaves the heap well formed, with
the allocated blocks as they were, or leaves no chain at all. -/
theorem Heap.allocate_survives_iff {P : σ → Prop} {h : Heap σ} {blocks : List Piece}
    (hP : Segment.Loose P) (hs : h.arena.Sound P blocks) (n : Nat) :
    (∃ r, (h.allocate n).result = .ok r ∧
        (h.arena.Survives n blocks r (h.allocate n).state.arena ↔ ¬h.arena.Starved n blocks)) ∨
      (h.allocate n).result = .error .endless := by
  by_cases hstarved : h.arena.Starved n blocks
  · rcases Arena.allocate_tears hP hs hstarved with ⟨r, h', asked, hruns, hnone⟩ | hendless
    · refine Or.inl ⟨r, hruns.result, fun hsurvives => ?_, fun hfed => absurd hstarved hfed⟩
      obtain ⟨blocks', hformed, _⟩ := hsurvives
      change (Arena.allocate n h.arena).arena.Formed blocks' at hformed
      rw [hruns.arena] at hformed
      exact absurd hformed (hnone blocks')
    · exact Or.inr hendless
  · rcases Arena.allocate_survives hP hs hstarved with ⟨r, h', asked, hruns, hsurvives⟩ | hendless
    · refine Or.inl ⟨r, hruns.result, fun _ => hstarved, fun _ => ?_⟩
      change h.arena.Survives n blocks r (Arena.allocate n h.arena).arena
      rw [hruns.arena]
      exact hsurvives
    · exact Or.inr hendless

/-- Requests that are granted 8 and 1000 bytes, then in full: the end does not move in the first round,
and the free block there grows in the others. -/
theorem Heap.allocate_survives_short : ∃ h : Heap Script,
    Heap.create (⟨0x100000, 65536, 0, 4096, [.grant, .grantOnly 8, .grantOnly 1000], []⟩ : Script)
      Reservation.blank Config.standard = .ok (h, []) ∧
    (h.allocate 3000).result = .ok (some 0x100028) ∧
    h.arena.Survives 3000 [⟨h.arena.capacity, .free⟩] (some 0x100028)
      (h.allocate 3000).state.arena := by
  have hplayed : ((Heap.create (⟨0x100000, 65536, 0, 4096,
      [.grant, .grantOnly 8, .grantOnly 1000], []⟩ : Script) Reservation.blank
      Config.standard).toOption.map fun s => (s.2, (s.1.allocate 3000).result.toOption)) =
      some ([], some (some 0x100028)) := by
    decide +kernel
  obtain ⟨⟨h, log⟩, hmade, hfacts⟩ := Option.map_eq_some_iff.mp hplayed
  obtain ⟨rfl, hanswer⟩ := Prod.mk.inj hfacts
  have hcreate := ok_of_toOption hmade
  have hresult := ok_of_toOption hanswer
  have hsegment : Script.Bounded
      ⟨0x100000, 65536, 0, 4096, [.grant, .grantOnly 8, .grantOnly 1000], []⟩ :=
    ⟨by decide, by decide⟩
  obtain ⟨⟨arena, events⟩, harena, hheap⟩ := ok_of_bind hcreate
  obtain ⟨rfl, _⟩ := Prod.mk.inj (Except.ok.inj hheap)
  obtain ⟨hs, _⟩ := Arena.create_sound Script.loose_bounded hsegment harena
  have hfed : ¬arena.Starved 3000 [⟨arena.capacity, .free⟩] := by
    rintro ⟨_, size, _, _, hnone, _⟩
    have hpos := (hs.chained.tiles.whole List.mem_cons_self).1
    have htail : freeTail [⟨arena.capacity, .free⟩] = arena.capacity := rfl
    rw [htail] at hnone
    exact absurd hnone (Nat.pos_iff_ne_zero.mp hpos)
  refine ⟨_, hcreate, hresult, ?_⟩
  rcases Heap.allocate_survives_iff (h := ⟨arena⟩) Script.loose_bounded
    hs 3000 with ⟨r, hr, hsurvives⟩ | hendless
  · obtain rfl := Except.ok.inj (hresult.symm.trans hr)
    exact hsurvives.mpr hfed
  · exact absurd (hresult.symm.trans hendless) nofun

/-- The header of the first block leads to its footer. -/
lemma Arena.Formed.first_footer {h : Arena σ} {blocks : List Piece} (hf : h.Formed blocks)
    (hlt : h.start < h.stop) :
    h.memory.word (h.start + Tag.size ⟨h.memory.word h.start⟩ - wordSize) =
      h.memory.word h.start := by
  cases blocks with
  | nil => exact absurd hf.lands (Nat.ne_of_lt hlt)
  | cons p rest =>
    obtain ⟨hp, hhead, hfoot, _⟩ := hf.tiles
    rw [hhead, hp.tag_size, hfoot]

/-- The last block is allocated when a request is granted no bytes. Its footer is overwritten, and the
next request, which is granted in full, is answered over the damage. -/
theorem Heap.allocate_not_survived : ∃ (h : Heap Script) (live : List Lease),
    Heap.session (⟨0x100000, 65536, 0, 4096, [.grant, .grantOnly 0], []⟩ : Script)
      Reservation.blank Config.standard [.allocate 944] = some (h, live) ∧
    h.arena.Formed [⟨960, .allocated⟩] ∧ (h.allocate 100).result = .ok (some 0x1003e8) ∧
    ∀ blocks, ¬(h.allocate 100).state.arena.Formed blocks := by
  have hplayed : (Heap.session (⟨0x100000, 65536, 0, 4096, [.grant, .grantOnly 0], []⟩ : Script)
      Reservation.blank Config.standard [.allocate 944]).map (fun s =>
        let before := s.1.arena
        let after := (s.1.allocate 100).state.arena
        ([before.start, before.stop, before.floor, Segment.stop before.segment],
          [0x100018, 0x100020, 0x1003d8, 0x1003e0].map before.memory.word,
          (s.1.allocate 100).result.toOption,
          [after.start, after.stop, after.memory.word 0x100020, after.memory.word 0x1003d8])) =
      some ([0x100020, 0x1003e0, 0x1003e0, 0x100400], [1, 961, 961, 1], some (some 0x1003e8),
        [0x100020, 0x1007e0, 961, 0]) := by
    decide +kernel
  obtain ⟨⟨h, live⟩, hs, hfacts⟩ := Option.map_eq_some_iff.mp hplayed
  simp only [Prod.mk.injEq, List.map_cons, List.map_nil, List.cons.injEq, and_true] at hfacts
  obtain ⟨⟨hstart, hstop, hfloor, hbreak⟩, ⟨hbefore, hhead, hfoot, hafter⟩, hanswer,
    hstart', hstop', hhead', hfoot'⟩ := hfacts
  refine ⟨h, live, hs, ⟨?_, ?_, ?_, ?_, List.isChain_singleton _, ?_, ?_⟩, ok_of_toOption hanswer, ?_⟩
  · rw [hstart]
    exact hbefore
  · rw [hstop]
    exact hafter
  · rw [hstart]
    exact ⟨⟨by decide, by decide⟩, hhead, hfoot, trivial⟩
  · rw [hstart, hstop]
    rfl
  · rw [hfloor, hstop]
  · rw [hstop, hbreak]
    rfl
  · intro blocks hformed
    have hfooter := hformed.first_footer (by rw [hstart', hstop']; decide)
    rw [hstart', hhead'] at hfooter
    exact absurd (hfoot'.symm.trans hfooter) (by decide)

end BlockHeap
