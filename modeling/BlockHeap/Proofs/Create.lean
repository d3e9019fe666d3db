import BlockHeap.Heap
import BlockHeap.Proofs.Resize

/-!
# A new arena

An arena that was made is sound: it is one free block between two sentinels, and ends where its
segment does.
-/

namespace BlockHeap

lemma Config.validate_ok {c : Config} {u : Unit} (h : c.validate = .ok u) :
    c.chunkSize % blockUnit = 0 ∧ 4 * blockUnit ≤ c.chunkSize ∧ 0 < c.shrinkThreshold ∧
      c.shrinkThreshold % blockUnit = 0 := by
  unfold Config.validate at h
  split at h
  next => exact absurd h (by simp)
  next hunit =>
    split at h
    next => exact absurd h (by simp)
    next hsmall =>
      split at h
      next => exact absurd h (by simp)
      next hthreshold => omega

variable {σ : Type} [Segment σ]

namespace Arena

variable {P : σ → Prop} {h : Arena σ}

lemma firstBlock_ok {a b : Nat} (h : firstBlock a = .ok b) : b = Word.floorUnit a + blockUnit := by
  unfold firstBlock Word.add at h
  split at h
  next => exact (Except.ok.inj h).symm
  next => exact absurd h (by simp)

lemma endSentinel_ok {a b : Nat} (h : endSentinel a = .ok b) :
    wordSize ≤ a ∧ b = Word.floorUnit (a - wordSize) := by
  by_cases hle : wordSize ≤ a
  · rw [endSentinel_eq hle] at h
    exact ⟨hle, (Except.ok.inj h).symm⟩
  · unfold endSentinel Word.sub at h
    rw [if_neg hle] at h
    exact absurd h nofun

/-- Laying out writes both sentinels and one free block between them. -/
theorem layOut_runs (hs : h.Sited) (hunit : h.stop % blockUnit = 0)
    (hroom : h.start + minBlockSize ≤ h.stop) (hstop : h.stop + wordSize ≤ Segment.stop h.segment) :
    ∃ m, Action.Runs layOut h () (h.withMemory m) [] ∧
      (h.withMemory m).Laid [⟨h.capacity, .free⟩] := by
  have hstart := hs.le_start
  have hal := hs.aligned
  have hlt := hs.stop_lt
  simp only [blockUnit, minBlockSize, wordSize] at *
  have hp : Piece.Whole ⟨h.capacity, .free⟩ := by
    unfold capacity
    exact ⟨by simp only; omega, by simp only [blockUnit]; omega⟩
  have hcapacity : h.start + h.capacity = h.stop := by
    unfold capacity
    omega
  have hback : Word.backward h.start wordSize = h.start - wordSize :=
    Word.backward_of_le (by simp only [wordSize]; omega) (by omega)
  have hstore := hs.store_runs (a := h.start - wordSize) .sentinel
    (Or.inr (by simp only [wordSize]; omega)) (by simp only [wordSize]; omega)
  have hs₁ := hs.withMemory (h.memory.setWord (h.start - wordSize) Tag.sentinel.bits)
  have hmark := Block.mark_runs h.start hs₁ hp (by simp only [withMemory_start]; omega)
    (by simp only [withMemory_segment]; omega)
  have hs₂ := hs₁.withMemory
    ((h.memory.setWord (h.start - wordSize) Tag.sentinel.bits).mark h.start ⟨h.capacity, .free⟩)
  have hend := hs₂.store_runs (a := h.stop) .sentinel
    (Or.inl (by simp only [withMemory_start]; omega)) (by simp only [withMemory_segment]; omega)
  have hsame := Memory.mark_sameOutside h.start hp
    (h.memory.setWord (h.start - wordSize) Tag.sentinel.bits)
  have htiles := Memory.tiles_mark h.start hp
    (by simp only [Piece.bits, Status.bits]; omega)
    (h.memory.setWord (h.start - wordSize) Tag.sentinel.bits)
  refine ⟨((h.memory.setWord (h.start - wordSize) Tag.sentinel.bits).mark h.start
    ⟨h.capacity, .free⟩).setWord h.stop Tag.sentinel.bits, ?_,
    ⟨⟨hs.aligned, hs.base_lt, hs.stop_lt⟩, ⟨?_, ?_, ?_⟩, hcapacity, hstop⟩⟩
  · unfold layOut
    refine (Action.Runs.get h).andThen ?_
    rw [hback]
    refine hstore.andThen (hmark.andThen (hend.andThen ?_))
    exact Action.Runs.diag _ ((Action.Runs.lift (Word.sub_of_le (by omega)) _).andThen
      (Action.Runs.pure _ _))
  · change Memory.word _ (h.start - wordSize) = _
    rw [withMemory_memory, Memory.word_setWord_of_disjoint (by simp only [wordSize]; omega)]
    have hword := Memory.word_setWord h.memory (h.start - wordSize) Tag.sentinel.bits
    have hkept := Memory.word_congr (a := h.start - wordSize) fun a _ ha =>
      hsame a (Or.inl (by simp only [wordSize] at ha; omega))
    exact hkept.trans hword
  · refine htiles.congr fun a _ ha => ?_
    simp only [span_cons, span_nil, Nat.add_zero] at ha
    rw [withMemory_memory, Memory.read_setWord, if_neg (by omega)]
  · simp only [withMemory_start, withMemory_memory, span_cons, span_nil, Nat.add_zero, hcapacity]
    exact Memory.word_setWord _ _ _

/-- A new arena before anything is written into it. -/
def blank (segment : σ) (memory : Memory) (config : Config) (pageSize start stop : Nat) : Arena σ where
  segment := segment
  memory := memory
  placement := .ofPolicy config.policy
  chunkSize := config.chunkSize
  shrinkThreshold := config.shrinkThreshold
  pageSize := pageSize
  start := start
  stop := stop
  floor := stop
  verbosity := config.verbosity

lemma create_ok {segment : σ} {memory : Memory} {config : Config} {events : List Event}
    (hc : create segment memory config = .ok (h, events)) :
    ∃ segment' memory' warnings start stop,
      Segment.grow config.chunkSize segment memory = ⟨none, segment', memory', warnings⟩ ∧
      config.validate = .ok () ∧ start = Word.floorUnit (Segment.start segment') + blockUnit ∧
      wordSize ≤ Segment.stop segment' ∧
      stop = Word.floorUnit (Segment.stop segment' - wordSize) ∧ start + minBlockSize ≤ stop ∧
      h = (layOut (blank segment' memory' config (Segment.pageSize segment) start stop)).arena ∧
      events = .grow config.chunkSize :: Action.echo ⟨none, segment', memory', warnings⟩ ++
        (layOut (blank segment' memory' config (Segment.pageSize segment) start stop)).events := by
  unfold create at hc
  obtain ⟨_, hconfig, hc⟩ := ok_of_bind hc
  generalize hmove : Segment.grow config.chunkSize segment memory = move at hc
  obtain ⟨refusal, segment', memory', warnings⟩ := move
  dsimp only at hc
  split at hc
  next => exact absurd hc nofun
  next hpage =>
    split at hc
    next => exact absurd hc nofun
    next hfresh =>
      split at hc
      next => exact absurd hc nofun
      next hgranted =>
        obtain ⟨start, hstart, hc⟩ := ok_of_bind hc
        obtain ⟨stop, hstop, hc⟩ := ok_of_bind hc
        split at hc
        next => exact absurd hc nofun
        next hroom =>
          obtain ⟨_, _, hc⟩ := ok_of_bind hc
          have hrefusal : refusal = none := by
            cases refusal with
            | none => rfl
            | some error => exact absurd rfl (hgranted error)
          obtain ⟨hword, hlast⟩ := endSentinel_ok (ok_of_mapError hstop)
          obtain ⟨harena, hevents⟩ := Prod.mk.inj (Except.ok.inj hc)
          subst hrefusal
          exact ⟨segment', memory', warnings, start, stop, rfl, ok_of_mapError hconfig,
            firstBlock_ok (ok_of_mapError hstart), hword, hlast, by omega, harena.symm,
            hevents.symm⟩

/-- There is room to lay an arena out between the first block's place and the end sentinel's. -/
lemma blank_runs {segment : σ} (memory : Memory) (config : Config) (pageSize : Nat) {start stop : Nat}
    (hlimit : Segment.stop segment < Word.limit) (hword : wordSize ≤ Segment.stop segment)
    (hstart : start = Word.floorUnit (Segment.start segment) + blockUnit)
    (hstop : stop = Word.floorUnit (Segment.stop segment - wordSize))
    (hroom : start + minBlockSize ≤ stop) :
    ∃ m, Action.Runs layOut (blank segment memory config pageSize start stop) ()
        ((blank segment memory config pageSize start stop).withMemory m) [] ∧
      ((blank segment memory config pageSize start stop).withMemory m).Laid
        [⟨stop - start, .free⟩] := by
  have hdown : Word.floorUnit (Segment.stop segment - wordSize) ≤
      Segment.stop segment - wordSize := Nat.div_mul_le_self _ _
  have hup : Segment.start segment < Word.floorUnit (Segment.start segment) + blockUnit := by
    unfold Word.floorUnit
    simp only [blockUnit]
    omega
  have hstartmod := floorUnit_mod (Segment.start segment)
  have hstopmod := floorUnit_mod (Segment.stop segment - wordSize)
  rw [← hstart] at hup
  rw [← hstop] at hdown hstopmod
  have haligned : start % blockUnit = 0 := by
    simp only [blockUnit] at *
    omega
  exact layOut_runs (h := blank segment memory config pageSize start stop)
    ⟨haligned, hup, hlimit⟩ hstopmod hroom
    (by change stop + wordSize ≤ Segment.stop segment; omega)

/-- An arena that was made is a blank one with one free block laid out in it. -/
lemma create_laid {segment : σ} {memory : Memory} {config : Config} {events : List Event}
    (hP : Segment.Loose P) (hvalid : P segment)
    (hc : create segment memory config = .ok (h, events)) :
    ∃ segment' memory' warnings m start stop, P segment' ∧ config.validate = .ok () ∧
      Segment.grow config.chunkSize segment memory = ⟨none, segment', memory', warnings⟩ ∧
      start = Word.floorUnit (Segment.start segment') + blockUnit ∧
      stop = Word.floorUnit (Segment.stop segment' - wordSize) ∧ start + minBlockSize ≤ stop ∧
      h = blank segment' m config (Segment.pageSize segment) start stop ∧
      h.Laid [⟨stop - start, .free⟩] := by
  obtain ⟨segment', memory', warnings, start, stop, hgrow, hconfig, hstart, hword, hstop, hroom, rfl,
    _⟩ := create_ok hc
  have hafter := hP.grow_valid config.chunkSize memory hvalid
  rw [hgrow] at hafter
  obtain ⟨m, hruns, hlaid⟩ := blank_runs memory' config (Segment.pageSize segment)
    (hP.stop_lt hafter) hword hstart hstop hroom
  rw [hruns.arena]
  exact ⟨segment', memory', warnings, m, start, stop, hafter, hconfig, hgrow, hstart, hstop, hroom,
    rfl, hlaid⟩

/-- An arena that was made in a segment with a loose provider is one free block. -/
theorem create_sound {segment : σ} {memory : Memory} {config : Config} {events : List Event}
    (hP : Segment.Loose P) (hvalid : P segment)
    (hc : create segment memory config = .ok (h, events)) :
    h.Sound P [⟨h.capacity, .free⟩] ∧ h.floor = h.stop := by
  obtain ⟨segment', _, _, m, start, stop, hafter, hconfig, _, _, hstop, hroom, rfl, hlaid⟩ :=
    create_laid hP hvalid hc
  have hstopmod := floorUnit_mod (Segment.stop segment' - wordSize)
  rw [← hstop] at hstopmod
  refine ⟨⟨hlaid, hafter, List.isChain_singleton _, ?_, hstopmod, hroom, Nat.le_refl stop,
    (Config.validate_ok hconfig).1, hstop⟩, rfl⟩
  intro c hcursor
  have hnone : (Placement.ofPolicy config.policy).cursor = none := by
    cases config.policy <;> rfl
  exact absurd (hnone.symm.trans hcursor) (by simp)

/-- An arena is made with the settings of its configuration. -/
lemma create_settings {segment : σ} {memory : Memory} {config : Config} {events : List Event}
    (hP : Segment.Loose P) (hvalid : P segment)
    (hc : create segment memory config = .ok (h, events)) :
    h.placement.policy = config.policy ∧ h.chunkSize = config.chunkSize ∧
      h.shrinkThreshold = config.shrinkThreshold := by
  obtain ⟨_, _, _, _, _, _, _, _, _, _, _, _, rfl, _⟩ := create_laid hP hvalid hc
  refine ⟨?_, rfl, rfl⟩
  change (Placement.ofPolicy config.policy).policy = config.policy
  cases config.policy <;> rfl

/-- A segment that granted its first chunk has room for the sentinels and a block. -/
lemma grown_room (memory : Memory) {config : Config} {segment : σ} (hP : Segment.Exact P)
    (hvalid : P segment) (hconfig : config.validate = .ok ())
    (hgranted : (Segment.grow config.chunkSize segment memory).refusal = none) :
    firstBlock (Segment.start (Segment.grow config.chunkSize segment memory).segment) =
        .ok (Word.floorUnit (Segment.start segment) + blockUnit) ∧
      endSentinel (Segment.stop (Segment.grow config.chunkSize segment memory).segment) =
        .ok (Word.floorUnit (Segment.stop segment + config.chunkSize - wordSize)) ∧
      wordSize ≤ Segment.stop segment + config.chunkSize ∧
      Word.floorUnit (Segment.start segment) + blockUnit + minBlockSize ≤
        Word.floorUnit (Segment.stop segment + config.chunkSize - wordSize) := by
  obtain ⟨_, hchunk, _⟩ := Config.validate_ok hconfig
  have hlimit := hP.stop_lt (hP.grow_valid config.chunkSize memory hvalid)
  have hstop : Segment.stop segment = Segment.start segment + Segment.committed segment := rfl
  rw [hP.grow_granted _ memory hvalid hgranted] at hlimit ⊢
  rw [hP.grow_start _ memory hvalid]
  have hroom : Word.floorUnit (Segment.start segment) + 2 * blockUnit ≤
      Word.floorUnit (Segment.stop segment + config.chunkSize - wordSize) := by
    unfold Word.floorUnit
    simp only [blockUnit, wordSize] at *
    omega
  have hdown : Word.floorUnit (Segment.stop segment + config.chunkSize - wordSize) ≤
      Segment.stop segment + config.chunkSize - wordSize := Nat.div_mul_le_self _ _
  simp only [blockUnit, wordSize, minBlockSize] at *
  exact ⟨Word.add_of_lt (by simp only [blockUnit]; omega),
    endSentinel_eq (by simp only [wordSize]; omega), by omega, by omega⟩

/-- With an exact provider, an arena is made if the configuration is valid and the segment is fresh,
has pages, and grants its first chunk. -/
theorem create_made_iff (memory : Memory) (config : Config) {segment : σ} (hP : Segment.Exact P)
    (hvalid : P segment) :
    (∃ made, create segment memory config = .ok made) ↔
      config.validate = .ok () ∧ Segment.pageSize segment ≠ 0 ∧ Segment.committed segment = 0 ∧
        (Segment.grow config.chunkSize segment memory).refusal = none := by
  constructor
  · rintro ⟨⟨h, events⟩, hc⟩
    obtain ⟨segment', memory', warnings, _, _, hgrow, hconfig, _⟩ := create_ok hc
    unfold create at hc
    obtain ⟨_, _, hc⟩ := ok_of_bind hc
    dsimp only at hc
    split at hc
    next => exact absurd hc nofun
    next hpage =>
      split at hc
      next => exact absurd hc nofun
      next hfresh => exact ⟨hconfig, hpage, not_not.mp hfresh, by rw [hgrow]⟩
  · rintro ⟨hconfig, hpage, hfresh, hgranted⟩
    obtain ⟨hfirst, hlast, hword, hroom⟩ := grown_room memory hP hvalid hconfig hgranted
    have hlimit := hP.stop_lt (hP.grow_valid config.chunkSize memory hvalid)
    have hmoved := hP.grow_granted _ memory hvalid hgranted
    have hbase := hP.grow_start config.chunkSize memory hvalid
    unfold create
    rw [hconfig]
    generalize Segment.grow config.chunkSize segment memory = move at *
    obtain ⟨refusal, segment', memory', warnings⟩ := move
    obtain rfl : refusal = none := hgranted
    dsimp only at hfirst hlast hlimit hmoved hbase
    rw [← hmoved] at hlast hroom hword
    rw [← hbase] at hfirst hroom
    obtain ⟨m, hruns, _⟩ := blank_runs memory' config (Segment.pageSize segment) hlimit hword rfl rfl
      hroom
    dsimp only
    rw [if_neg hpage, if_neg (not_not.mpr hfresh), hfirst, hlast]
    have hresult := hruns.result
    unfold blank at hresult
    simp only [Except.mapError, bind, Except.bind]
    rw [if_neg (Nat.not_lt.mpr hroom), hresult]
    exact ⟨_, rfl⟩

/-- Making an arena in a segment with an exact provider comes to its end, with an arena or with the
reason why there is none. -/
theorem create_answers (memory : Memory) (config : Config) {segment : σ} (hP : Segment.Exact P)
    (hvalid : P segment) (fault : Fault) : create segment memory config ≠ .error (.fault fault) := by
  intro hc
  have hmade := create_made_iff memory config hP hvalid
  rw [hc] at hmade
  unfold create at hc
  rcases error_of_bind hc with hbad | ⟨_, hconfig, hc⟩
  · obtain ⟨_, _, hcause⟩ := error_of_mapError hbad
    exact absurd hcause nofun
  generalize Segment.grow config.chunkSize segment memory = move at hc hmade
  obtain ⟨refusal, segment', memory', warnings⟩ := move
  dsimp only at hc hmade
  split at hc
  next => exact absurd hc nofun
  next hpage =>
    split at hc
    next => exact absurd hc nofun
    next hfresh =>
      split at hc
      next => exact absurd hc nofun
      next hrefusal =>
        have hgranted : refusal = none := by
          cases refusal with
          | none => rfl
          | some error => exact absurd rfl (hrefusal error)
        obtain ⟨_, hok⟩ := hmade.mpr ⟨ok_of_mapError hconfig, hpage, not_not.mp hfresh, hgranted⟩
        exact absurd hok nofun

end Arena
end BlockHeap
