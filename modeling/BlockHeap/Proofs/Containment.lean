import BlockHeap.Proofs.Progress

/-!
# What a new arena keeps in its segment

Nothing aligns a segment. The end sentinel's place is computed from the room that it needs, and it is
in the segment wherever the segment lies. The first block's place is the next multiple of the block
unit, whether a sentinel has room below it or not: a segment that starts in the last bytes of a
unit leaves none, and then the start sentinel lies below the segment.
-/

namespace BlockHeap

variable {σ : Type} [Segment σ]

lemma Segment.holds_iff {s : σ} {a count : Nat} :
    Segment.holds s a count = true ↔ start s ≤ a ∧ a + count ≤ stop s := by
  unfold holds
  rw [Bool.and_eq_true, decide_eq_true_eq, decide_eq_true_eq]

namespace Arena

variable {h : Arena σ}

/-- A segment has room for a sentinel below the first block unless it starts in the last bytes of a
unit. -/
lemma fenced_iff_of_start (hstart : h.start = Word.floorUnit (Segment.start h.segment) + blockUnit) :
    h.Fenced ↔ Segment.start h.segment % blockUnit ≤ blockUnit - wordSize := by
  unfold Fenced
  rw [hstart]
  unfold Word.floorUnit
  simp only [blockUnit, wordSize]
  omega

/-- The start sentinel is in the segment exactly if it is not below it. -/
lemma Laid.holds_before_iff {blocks : List Piece} (hl : h.Laid blocks) :
    Segment.holds h.segment (h.start - wordSize) wordSize = true ↔ h.Fenced := by
  have hstart := hl.toSited.le_start
  have hspan := hl.stop_eq
  have hstop := hl.stop_le
  rw [Segment.holds_iff]
  unfold Fenced
  simp only [blockUnit, wordSize] at *
  omega

/-- Every word from the first block up to the end sentinel is in the segment. -/
lemma Laid.holds_word {blocks : List Piece} {a : Nat} (hl : h.Laid blocks) (hlow : h.start ≤ a)
    (hhigh : a ≤ h.stop) : Segment.holds h.segment a wordSize = true := by
  have hbase := hl.base_lt
  have hstop := hl.stop_le
  rw [Segment.holds_iff]
  omega

/-- Laying out touches the start sentinel's place first. -/
lemma layOut_strays {a : Nat} (hat : a = Word.backward h.start wordSize)
    (hout : Segment.holds h.segment a wordSize ≠ true) : .stray a ∈ (layOut h).events := by
  have hstray : Action.strays h a = [.stray a] := by
    unfold Action.strays
    rw [if_neg hout]
  have hstore : Action.store a .sentinel h =
      ⟨.ok (), h.withMemory (h.memory.setWord a Tag.sentinel.bits), [.stray a]⟩ := by
    rw [← hstray]
    rfl
  unfold layOut
  rw [Action.bind_of_ok (show Action.get h = ⟨.ok h, h, []⟩ from rfl), ← hat,
    Action.bind_of_ok hstore]
  exact List.mem_cons_self

/-- The one tag outside the segment that laying out can touch is the start sentinel, and it does so
exactly if there is no room for it. -/
lemma layOut_strays_iff {m : Memory} {blocks : List Piece}
    (hruns : Action.Runs layOut h () (h.withMemory m) []) (hl : (h.withMemory m).Laid blocks)
    (a : Nat) : .stray a ∈ (layOut h).events ↔ a + wordSize = h.start ∧ ¬h.Fenced := by
  have hle : blockUnit ≤ h.start := hl.toSited.le_start
  have hstop : h.start + span blocks = h.stop := hl.stop_eq
  have hlt : h.stop + wordSize < Word.limit := hl.stop_lt_limit
  constructor
  · intro ha
    obtain ⟨hat, hbelow⟩ := hruns.committed a ha
    refine ⟨hat, fun hin => ?_⟩
    unfold Fenced at hin
    omega
  · rintro ⟨hat, hout⟩
    have hplace : a = h.start - wordSize := by omega
    have hback : Word.backward h.start wordSize = h.start - wordSize :=
      Word.backward_of_le (by omega) (by omega)
    rw [← hback] at hplace
    apply layOut_strays hplace
    intro hin
    rw [hplace, hback] at hin
    exact hout (hl.holds_before_iff.mp hin)

omit [Segment σ] in
/-- An action keeps the segment if each of its steps does, also when it faults. -/
lemma bind_segment {α β : Type} {m : Action σ α} {f : α → Action σ β}
    (hm : ∀ h, (m h).arena.segment = h.segment)
    (hf : ∀ x h, (f x h).arena.segment = h.segment) (h : Arena σ) :
    ((m >>= f) h).arena.segment = h.segment := by
  have hbefore := hm h
  rw [Action.bind_apply]
  generalize m h = reply at hbefore ⊢
  obtain ⟨fault | x, h', events⟩ := reply
  · exact hbefore
  · exact (hf x h').trans hbefore

lemma store_segment (a : Nat) (tag : Tag) (h : Arena σ) :
    (Action.store a tag h).arena.segment = h.segment := rfl

lemma mark_segment (block size : Nat) (status : Status) (h : Arena σ) :
    (Block.mark block size status h).arena.segment = h.segment := by
  unfold Block.mark
  refine bind_segment (fun _ => rfl) (fun tag => ?_) h
  exact bind_segment (store_segment _ _) fun _ => store_segment _ _

omit [Segment σ] in
lemma diag_segment (level : Verbosity) {notice : Action σ Notice}
    (hn : ∀ h, (notice h).arena.segment = h.segment) (h : Arena σ) :
    (Action.diag level notice h).arena.segment = h.segment := by
  unfold Action.diag
  refine bind_segment (fun _ => rfl) (fun h₀ h' => ?_) h
  split
  next =>
    cases level.severity? with
    | none => rfl
    | some severity => exact bind_segment hn (fun _ _ => rfl) h'
  next => rfl

/-- Laying out asks for nothing. -/
lemma layOut_segment (h : Arena σ) : (layOut h).arena.segment = h.segment := by
  unfold layOut
  refine bind_segment (fun _ => rfl) (fun h₀ => ?_) h
  refine bind_segment (store_segment _ _) fun _ => ?_
  refine bind_segment (mark_segment _ _ _) fun _ => ?_
  refine bind_segment (store_segment _ _) fun _ => diag_segment _ ?_
  exact bind_segment (fun _ => rfl) fun _ _ => rfl

/-- An arena that was made, in any segment below the end of the address space and whatever its first
request was granted: its bounds are multiples of the block unit with a block between them, its one
free block and the end sentinel are in the segment, and the start sentinel is in the segment exactly
if the segment starts in none of the last seven bytes of a unit. Otherwise it is the one tag that was
touched outside the segment. -/
theorem create_enclosed {segment : σ} {memory : Memory} {config : Config} {events : List Event}
    (hc : create segment memory config = .ok (h, events))
    (hlimit : Segment.stop h.segment < Word.limit) :
    h.start % blockUnit = 0 ∧ h.stop % blockUnit = 0 ∧ h.start + minBlockSize ≤ h.stop ∧
      Chained h.memory h.start [⟨h.capacity, .free⟩] ∧ h.start + h.capacity = h.stop ∧
      (∀ a, h.start ≤ a → a ≤ h.stop → Segment.holds h.segment a wordSize = true) ∧
      (Segment.holds h.segment (h.start - wordSize) wordSize = true ↔
        Segment.start h.segment % blockUnit ≤ blockUnit - wordSize) ∧
      ∀ a, .stray a ∈ events ↔ a + wordSize = h.start ∧
        blockUnit - wordSize < Segment.start h.segment % blockUnit := by
  obtain ⟨segment', memory', warnings, start, stop, _, _, hstart, hlow, hstop, hroom, rfl, rfl⟩ :=
    create_ok hc
  rw [layOut_segment] at hlimit
  change Segment.stop segment' < Word.limit at hlimit
  obtain ⟨m, hruns, hlaid⟩ := blank_runs memory' config (Segment.pageSize segment) hlimit hlow
    hstart hstop hroom
  have hfenced := fenced_iff_of_start
    (h := blank segment' memory' config (Segment.pageSize segment) start stop) hstart
  have hmod : stop % blockUnit = 0 := hstop ▸ floorUnit_mod _
  rw [hruns.arena]
  refine ⟨hlaid.aligned, hmod, hroom, hlaid.chained, hlaid.stop_eq, fun a => hlaid.holds_word,
    hlaid.holds_before_iff.trans hfenced, fun a => ?_⟩
  rw [List.mem_append, List.mem_cons, layOut_strays_iff hruns hlaid, hfenced, Nat.not_le]
  refine or_iff_right ?_
  rintro (hgrown | hechoed)
  · exact absurd hgrown nofun
  · exact Action.stray_echo _ a hechoed

/-- A script that starts at the last place that has room, and grants one byte more than 31 units. -/
theorem create_enclosed_odd : ∃ (h : Arena Script) (events : List Event),
    create (⟨0x100018, 65536, 0, 4096, [.grantOnly 993], []⟩ : Script) (.blankOf 0xa5)
      Config.standard = .ok (h, events) ∧ h.start = 0x100020 ∧ h.stop = 0x1003e0 ∧
      Chained h.memory h.start [⟨960, .free⟩] ∧
      Segment.holds h.segment (h.start - wordSize) wordSize = true ∧
      Segment.holds h.segment h.stop wordSize = true ∧ ∀ a, .stray a ∉ events := by
  have hmade : (create (⟨0x100018, 65536, 0, 4096, [.grantOnly 993], []⟩ : Script) (.blankOf 0xa5)
      Config.standard).toOption.map (fun made => (made.1.segment, made.1.start, made.1.stop)) =
      some (⟨0x100018, 65536, 993, 4096, [], []⟩, 0x100020, 0x1003e0) := by
    decide +kernel
  obtain ⟨⟨h, events⟩, hmade, hfacts⟩ := Option.map_eq_some_iff.mp hmade
  obtain ⟨hsegment, hfacts⟩ := Prod.mk.inj hfacts
  obtain ⟨hstart, hstop⟩ := Prod.mk.inj hfacts
  have hcapacity : h.capacity = 960 := by
    unfold capacity
    rw [hstart, hstop]
  obtain ⟨_, _, hroom, hchained, _, hwords, hbefore, hstrays⟩ :=
    create_enclosed (ok_of_toOption hmade) (by rw [hsegment]; decide)
  rw [hsegment] at hbefore hstrays
  rw [hcapacity] at hchained
  refine ⟨h, events, ok_of_toOption hmade, hstart, hstop, hchained, ?_, hwords _ (by omega)
    (by omega), fun a ha => ?_⟩
  · rw [hsegment]
    exact hbefore.mpr (by decide)
  · exact absurd ((hstrays a).mp ha).2 (by decide)

/-- A script that starts in the last byte of a unit: its start sentinel is written below it. -/
theorem create_not_enclosed : ∃ (h : Arena Script) (events : List Event),
    create (⟨0x10001f, 65536, 0, 4096, [], []⟩ : Script) (.blankOf 0) Config.standard =
      .ok (h, events) ∧
    Segment.stop h.segment < Word.limit ∧
    Segment.holds h.segment (h.start - wordSize) wordSize = false ∧
    .stray (h.start - wordSize) ∈ events := by
  have hmade : (create (⟨0x10001f, 65536, 0, 4096, [], []⟩ : Script) (.blankOf 0)
      Config.standard).toOption.map (fun made => (decide (Segment.stop made.1.segment < Word.limit),
        Segment.holds made.1.segment (made.1.start - wordSize) wordSize,
        decide (Event.stray (made.1.start - wordSize) ∈ made.2))) = some (true, false, true) := by
    decide +kernel
  obtain ⟨⟨h, events⟩, hmade, hfacts⟩ := Option.map_eq_some_iff.mp hmade
  obtain ⟨hlimit, hfacts⟩ := Prod.mk.inj hfacts
  obtain ⟨hholds, hstray⟩ := Prod.mk.inj hfacts
  exact ⟨h, events, ok_of_toOption hmade, of_decide_eq_true hlimit, hholds,
    of_decide_eq_true hstray⟩

end Arena
end BlockHeap
