import BlockHeap.Proofs.Integrity

/-!
# Progress

Every call of a session comes to its end: no size is out of range, every status can be read, no walk
goes round for ever, and the segment is asked for more bytes once at most. In a segment that starts
at a word, no tag that a call touches lies outside the committed bytes.
-/

namespace BlockHeap

/-- How many bytes each request to grow among events asks for. -/
def Event.grown (events : List Event) : List Nat :=
  events.filterMap fun
    | .grow bytes => some bytes
    | _ => none

@[simp] lemma Event.grown_nil : Event.grown [] = [] := rfl

@[simp] lemma Event.grown_grow (bytes : Nat) : Event.grown [.grow bytes] = [bytes] := rfl

@[simp] lemma Event.grown_shrink (bytes : Nat) : Event.grown [.shrink bytes] = [] := rfl

@[simp] lemma Event.grown_append (xs ys : List Event) :
    Event.grown (xs ++ ys) = Event.grown xs ++ Event.grown ys :=
  List.filterMap_append

/-- Requests to grow are requests. -/
lemma Event.grown_requests (events : List Event) :
    Event.grown (Event.requests events) = Event.grown events := by
  induction events with
  | nil => rfl
  | cons e events ih =>
    unfold Event.grown Event.requests at ih ⊢
    cases e <;> simpa using ih

variable {σ : Type} [Segment σ]

namespace Arena

variable {h h' : Arena σ} {pre post blocks blocks' : List Piece} {size n a count : Nat}
  {r : Option Nat} {asked : List Event}

lemma Trimmed.grown_eq (ht : Trimmed h pre size post h' blocks' asked) :
    Event.grown asked = [] := by
  cases ht <;> rfl

lemma Obtained.grown_le (ho : Obtained h size blocks h' r blocks' asked) :
    (Event.grown asked).length ≤ 1 := by
  cases ho with
  | found => exact Nat.zero_le 1
  | enlarged => exact Nat.le_refl 1

lemma Allocated.grown_le (ha : Allocated h n blocks h' r blocks' asked) :
    (Event.grown asked).length ≤ 1 := by
  cases ha with
  | empty | unsized => exact Nat.zero_le 1
  | missed _ step => exact step.grown_le
  | placed _ _ _ step => exact step.grown_le

lemma Zeroed.grown_le (hz : Zeroed h count size blocks h' r blocks' asked) :
    (Event.grown asked).length ≤ 1 := by
  cases hz with
  | overflow => exact Nat.zero_le 1
  | failed _ step => exact step.grown_le
  | cleared _ _ step => exact step.grown_le

lemma Moved.grown_le (hm : Moved h a size n blocks h' r blocks' asked) :
    (Event.grown asked).length ≤ 1 := by
  cases hm with
  | failed step => exact step.grown_le
  | copied _ step _ release =>
    rw [Event.grown_append, release.grown_eq, List.append_nil]
    exact step.grown_le

lemma Resized.grown_le (hr : Resized h pre size post n h' r blocks' asked) :
    (Event.grown asked).length ≤ 1 := by
  cases hr with
  | unsized | same | absorbed => exact Nat.zero_le 1
  | cut _ _ step =>
    rw [step.grown_eq]
    exact Nat.zero_le 1
  | moved _ _ step => exact step.grown_le

end Arena

/-- No call asks the segment for more bytes twice. -/
lemma Call.Ends.grown_le {h h' : Arena σ} {blocks blocks' : List Piece} {c : Call} {r : Option Nat}
    {asked : List Event} (he : c.Ends h blocks h' r blocks' asked) :
    (Event.grown asked).length ≤ 1 := by
  cases he with
  | allocated step => exact step.grown_le
  | zeroed step => exact step.grown_le
  | nothing => exact Nat.zero_le 1
  | freed _ step | resizedZero _ step =>
    rw [step.grown_eq]
    exact Nat.zero_le 1
  | resizedNull step => exact step.grown_le
  | resized _ _ step => exact step.grown_le

/-- The start sentinel lies in the segment. -/
def Arena.Fenced (h : Arena σ) : Prop :=
  Segment.start h.segment + wordSize ≤ h.start

namespace Arena

variable {h h' : Arena σ}

lemma Fenced.of_eq (hf : h.Fenced) (hstart : h'.start = h.start)
    (hbase : Segment.start h'.segment = Segment.start h.segment) : h'.Fenced := by
  unfold Fenced
  rw [hstart, hbase]
  exact hf

lemma Fenced.not_stray {α : Type} {m : Action σ α} {x : α} {asked : List Event} (hf : h.Fenced)
    (hm : Action.Runs m h x h' asked) (a : Nat) : .stray a ∉ (m h).events := by
  intro ha
  obtain ⟨hat, hlow⟩ := hm.committed a ha
  unfold Fenced at hf
  omega

lemma floorUnit_fenced {a : Nat} (ha : a % wordSize = 0) :
    a + wordSize ≤ Word.floorUnit a + blockUnit := by
  unfold Word.floorUnit
  simp only [blockUnit, wordSize] at *
  omega

/-- Making an arena in a segment that starts at a word touches committed tags only. -/
lemma create_fenced {P : σ → Prop} {segment : σ} {memory : Memory} {config : Config}
    {events : List Event} (hP : Segment.Exact P) (hvalid : P segment)
    (hword : Segment.start segment % wordSize = 0)
    (hc : create segment memory config = .ok (h, events)) :
    h.Fenced ∧ ∀ a, .stray a ∉ events := by
  obtain ⟨segment', memory', warnings, start, stop, hgrow, _, hstart, hlow, hstop, hroom, rfl,
    rfl⟩ :=
    create_ok hc
  have hbase := hP.grow_start config.chunkSize memory hvalid
  have hlimit := hP.stop_lt (hP.grow_valid config.chunkSize memory hvalid)
  rw [hgrow] at hbase hlimit
  obtain ⟨m, hruns, _⟩ := blank_runs memory' config (Segment.pageSize segment) hlimit hlow hstart
    hstop hroom
  have hfenced : (blank segment' memory' config (Segment.pageSize segment) start stop).Fenced := by
    change Segment.start segment' + wordSize ≤ start
    rw [hstart]
    exact floorUnit_fenced (by rw [hbase]; exact hword)
  constructor
  · rw [hruns.arena]
    exact hfenced
  · intro a ha
    rcases List.mem_append.mp ha with hasked | hlaid
    · rcases List.mem_cons.mp hasked with hgrown | hechoed
      · exact absurd hgrown nofun
      · exact Action.stray_echo _ a hechoed
    · exact hfenced.not_stray hruns a hlaid

end Arena

variable {P : σ → Prop} {segment : σ} {memory : Memory} {config : Config} {h : Heap σ}
  {live : List Lease}

lemma Reach.fenced (hP : Segment.Exact P) (hsegment : P segment)
    (hword : Segment.start segment % wordSize = 0) (hr : Reach segment memory config h live) :
    h.arena.Fenced := by
  induction hr with
  | create made =>
    obtain ⟨events, hmade⟩ := Heap.create_ok made
    exact (Arena.create_fenced hP hsegment hword hmade).1
  | @serve h live answer c before valid served ih =>
    obtain ⟨blocks, hh⟩ := before.held hP hsegment
    obtain ⟨r, h', asked, hruns, _⟩ := hh.serve hP valid
    rw [(h.serve_eq c).2, hruns.arena]
    exact ih.of_eq hruns.start hruns.base
  | write a count f _ _ _ _ ih => exact ih.of_eq rfl rfl

/-- Over an exact provider and in a segment that starts at a word, neither making a heap nor a call at
any point of a session faults, no tag outside the committed bytes is touched, and no call asks the
segment for more bytes twice. -/
theorem Heap.progress (hP : Segment.Exact P) (hsegment : P segment)
    (hword : Segment.start segment % wordSize = 0) :
    (∀ fault, Arena.create segment memory config ≠ .error (.fault fault)) ∧
      (∀ arena events, Arena.create segment memory config = .ok (arena, events) →
        ∀ a, .stray a ∉ events) ∧
      ∀ (h : Heap σ) (live : List Lease), Reach segment memory config h live →
        (∃ report, h.check = .ok report) ∧
          ∀ c : Call, c.Valid live →
            (∃ answer, (c.action h.arena).result = .ok answer) ∧
              (∀ a, .stray a ∉ (c.action h.arena).events) ∧
              (Event.grown (c.action h.arena).events).length ≤ 1 := by
  refine ⟨Arena.create_answers memory config hP hsegment, ?_, ?_⟩
  · intro arena events hc
    exact (Arena.create_fenced hP hsegment hword hc).2
  · intro h live hr
    obtain ⟨blocks, hh⟩ := hr.held hP hsegment
    refine ⟨⟨_, hh.sound.check_eq.1⟩, fun c hc => ?_⟩
    obtain ⟨r, h', asked, blocks', ⟨_, hl, _, _⟩, hends⟩ := hh.call_trades hP hc
    refine ⟨⟨r, hl.runs.result⟩, (hr.fenced hP hsegment hword).not_stray hl.runs, ?_⟩
    rw [← Event.grown_requests, hl.runs.requests]
    exact hends.grown_le

/-- A session over a script that refuses to grow once, then to shrink. -/
theorem Heap.progress_played : ∃ (h : Heap Script) (live : List Lease),
    Heap.session (⟨0x100008, 65536, 0, 4096, [.grant, .deny], [.deny]⟩ : Script) (.blankOf 0xa5)
      Config.standard [.allocate 944, .allocate 100, .allocate 5000, .free (some 0x1003e8)] =
        some (h, live) ∧
    (∃ report, h.check = .ok report) ∧
      ∀ c : Call, c.Valid live →
        (∃ answer, (c.action h.arena).result = .ok answer) ∧
          (∀ a, .stray a ∉ (c.action h.arena).events) ∧
          (Event.grown (c.action h.arena).events).length ≤ 1 := by
  have hplayed : (Heap.session (⟨0x100008, 65536, 0, 4096, [.grant, .deny], [.deny]⟩ : Script)
      (.blankOf 0xa5) Config.standard
      [.allocate 944, .allocate 100, .allocate 5000, .free (some 0x1003e8)]).isSome = true := by
    decide +kernel
  obtain ⟨⟨h, live⟩, hs⟩ := Option.isSome_iff_exists.mp hplayed
  have hsegment : Script.Honest ⟨0x100008, 65536, 0, 4096, [.grant, .deny], [.deny]⟩ :=
    ⟨by decide, by decide, by simp⟩
  obtain ⟨_, _, hreach⟩ := Heap.progress Script.exact_honest hsegment (by decide)
  exact ⟨h, live, hs, hreach h live (.of_session hs)⟩

end BlockHeap
