import BlockHeap.Proofs.Ownership

/-!
# Zero bytes

A request for zero bytes is answered as a request for as many bytes, and then all of them are cleared.
They may be anywhere, in a block that was freed as its owner left it or in bytes that the segment has
just given. Clearing them keeps between the tags of their block: it writes over no other tag, no sentinel
and nothing that a client holds.
-/

namespace BlockHeap

/-- The places where the blocks of a chain from `a` on meet each other and the sentinels. A tag lies
before each of them, and another one after it. -/
def seams (a : Nat) (blocks : List Piece) : List Nat :=
  heads a blocks ++ [a + span blocks]

lemma mem_seams_iff {a s : Nat} {blocks : List Piece} :
    s ∈ seams a blocks ↔ ∃ pre post, blocks = pre ++ post ∧ s = a + span pre := by
  unfold seams
  rw [List.mem_append, List.mem_singleton]
  constructor
  · rintro (hhead | rfl)
    · obtain ⟨pre, p, post, rfl, rfl⟩ := mem_heads_iff.mp hhead
      exact ⟨pre, p :: post, rfl, rfl⟩
    · exact ⟨blocks, [], (List.append_nil _).symm, rfl⟩
  · rintro ⟨pre, post, rfl, rfl⟩
    cases post with
    | nil => exact Or.inr (by rw [List.append_nil])
    | cons p post => exact Or.inl (mem_heads_iff.mpr ⟨pre, p, post, rfl, rfl⟩)

/-- No two blocks meet inside of another one. -/
lemma seam_outside {a b n s : Nat} {blocks : List Piece} (hb : (b, n) ∈ taken a blocks)
    (hs : s ∈ seams a blocks) : s ≤ b ∨ b + n ≤ s := by
  obtain ⟨pre, post, rfl, rfl⟩ := mem_taken_iff.mp hb
  obtain ⟨pre', post', heq, rfl⟩ := mem_seams_iff.mp hs
  rcases List.append_eq_append_iff.mp heq with ⟨mid, rfl, hmid⟩ | ⟨mid, rfl, _⟩
  · rw [span_append]
    cases mid with
    | nil => exact Or.inl (by simp)
    | cons p mid =>
      obtain ⟨rfl, _⟩ := List.cons.inj hmid
      simp only [span_cons]
      exact Or.inr (by omega)
  · rw [span_append]
    exact Or.inl (by omega)

variable {σ : Type} [Segment σ]

namespace Arena

variable {P : σ → Prop} {h h' : Arena σ} {answer : Option Nat} {blocks : List Piece}
  {rest : List (Nat × Nat)} {count size n p : Nat}

/-- Whatever the arena holds, zero bytes are found where as many bytes are. -/
theorem allocateZeroed_yields (hlt : count * size < Word.limit)
    (ha : Action.Yields (allocate (count * size)) h answer h') :
    Action.Yields (allocateZeroed count size) h answer (h'.clear answer (count * size)) := by
  rw [allocateZeroed_eq hlt]
  apply Action.Yields.step () (Action.Yields.note _ _ _)
  exact ha.bind ⟨rfl, rfl⟩

lemma allocateZeroed_nothing (hnone : count * size = 0 ∨ Word.limit ≤ count * size) :
    Action.Yields (allocateZeroed count size) h none h := by
  rcases hnone with hzero | hlimit
  · have hempty : Action.Yields (allocate (count * size)) h none h := by
      rw [hzero]
      exact Action.Yields.step () (Action.Yields.note _ _ _) ⟨rfl, rfl⟩
    exact allocateZeroed_yields (by rw [hzero]; decide) hempty
  · exact (allocateZeroed_overflow hlimit).yields

omit [Segment σ] in
lemma read_clear (h : Arena σ) (p n a : Nat) :
    (h.clear (some p) n).memory.read a = if p ≤ a ∧ a < p + n then 0 else h.memory.read a :=
  Memory.read_fill _ _ _ _ _

lemma reportOf_clear (h : Arena σ) (answer : Option Nat) (n : Nat) (blocks : List Piece) :
    (h.clear answer n).reportOf blocks = h.reportOf blocks := by
  cases answer <;> rfl

/-- Both tags at every seam lie apart from the bytes that are asked for. -/
lemma Sound.seam_apart (hs : h.Sound P blocks)
    (htaken : (taken h.start blocks).Perm (Block.handed (some p) n ++ rest)) {s : Nat}
    (hseam : s ∈ seams h.start blocks) : s + wordSize ≤ p ∨ p + n + wordSize ≤ s := by
  obtain ⟨hp, hblock⟩ := hs.le_handed htaken
  have hroom := Block.le_leastSize n
  have houtside := seam_outside hblock hseam
  simp only [wordSize] at *
  omega

end Arena

/-- The bytes that are asked for lie apart from all that a client may use. -/
lemma Held.payload_apart {P : σ → Prop} {h h' : Arena σ} {live : List Lease}
    {blocks blocks' : List Piece} {kept : List (Nat × Nat)} {l : Lease} {p n : Nat}
    (hh : Held P h live blocks) (hs : h'.Sound P blocks') (hkept : (taken h.start blocks).Perm kept)
    (htaken : (taken h'.start blocks').Perm (Block.handed (some p) n ++ kept)) (hl : l ∈ live) :
    l.payload + h.usable l.payload ≤ p ∨ p + n ≤ l.payload := by
  have hapart := hs.handed_apart htaken (hkept.mem_iff.mp (hh.mem_taken hl))
  have husable := hh.usable_eq hl
  have hat := (hh.block_address hl).2.2.2
  have hp := (hs.le_handed htaken).1
  have hroom := Block.le_leastSize n
  simp only [wordSize] at *
  omega

variable {P : σ → Prop} {segment : σ} {memory : Memory} {config : Config} {h : Heap σ}
  {live : List Lease}

/-- Over an exact provider, at every point of a session, a request for no bytes or for more than a word
can count changes nothing. Any other request for zero bytes is answered as a request for as many bytes,
and leaves the same blocks, bounds and cursor. If it is answered with a payload, all bytes of that are 0,
whatever they were; no tag and no live payload is touched by clearing them. -/
theorem Reach.allocateZeroed_clears (hP : Segment.Exact P) (hsegment : P segment)
    (hr : Reach segment memory config h live) (count size : Nat) :
    let n := count * size
    let plain := h.serve (.allocate n)
    let zeroed := h.serve (.allocateZeroed count size)
    (n = 0 ∨ Word.limit ≤ n → zeroed.result = .ok none ∧ zeroed.state = h) ∧
      (n ≠ 0 → n < Word.limit → ∃ answer blocks,
        plain.result = .ok answer ∧ zeroed.result = .ok answer ∧
        plain.state.arena.Formed blocks ∧ zeroed.state.arena.Formed blocks ∧
        zeroed.state = { plain.state with arena := plain.state.arena.clear answer n } ∧
        zeroed.state.check = plain.state.check ∧
        ∀ p ∈ answer, (∀ i < n, zeroed.state.arena.memory.read (p + i) = 0) ∧
          (∀ s ∈ seams zeroed.state.arena.start blocks,
            s + wordSize ≤ p ∨ p + n + wordSize ≤ s) ∧
          ∀ l ∈ live, l.payload + h.arena.usable l.payload ≤ p ∨ p + n ≤ l.payload) := by
  intro n plain zeroed
  refine ⟨fun hnone => Heap.serve_yields (Arena.allocateZeroed_nothing hnone), fun _ hlt => ?_⟩
  obtain ⟨blocks₀, hh⟩ := hr.held hP hsegment
  obtain ⟨answer, h', asked, blocks, ⟨kept, hl, hkept, htaken⟩, _⟩ :=
    Arena.allocate_trades hP hh.sound n
  have hgiven := htaken
  rw [← hl.akin.start] at hgiven
  obtain ⟨hcleared, _⟩ := hl.sound.clear hgiven
  have hallocated := hl.runs.yields
  obtain ⟨hplain, hplainState⟩ : plain.result = .ok answer ∧ plain.state = ⟨h'⟩ :=
    Heap.serve_yields hallocated
  obtain ⟨hzeroed, hzeroedState⟩ :
      zeroed.result = .ok answer ∧ zeroed.state = ⟨h'.clear answer n⟩ :=
    Heap.serve_yields (Arena.allocateZeroed_yields hlt hallocated)
  rw [hplainState, hzeroedState]
  refine ⟨answer, blocks, hplain, hzeroed, hl.sound.formed, hcleared.formed, rfl, ?_, ?_⟩
  · exact hcleared.check_eq.1.trans
      ((congrArg Except.ok (h'.reportOf_clear answer n blocks)).trans hl.sound.check_eq.1.symm)
  · rintro p rfl
    refine ⟨fun i hi => ?_, fun s => hl.sound.seam_apart hgiven,
      fun l => hh.payload_apart hl.sound hkept hgiven⟩
    simp only
    rw [Arena.read_clear, if_pos (by omega)]

/-- A payload is filled with ones and freed, and its block is found again. -/
theorem Reach.allocateZeroed_clears_dirty : ∃ h : Heap (Reservation .common),
    Heap.session (⟨0x100000, 65536, 0, 4096⟩ : Reservation .common) Reservation.blank Config.standard
      [.allocate 100, .allocate 40] = some (h, [⟨0x1000a8, 40⟩, ⟨0x100028, 100⟩]) ∧
    let written : Heap (Reservation .common) :=
      { h with arena := h.arena.write 0x100028 100 fun _ => 0xff }
    let dirty := (written.serve (.free (some 0x100028))).state
    dirty.arena.memory.read 0x100060 = 0xff ∧
    (dirty.serve (.allocateZeroed 4 25)).result = .ok (some 0x100028) ∧
    ∀ i < 100, (dirty.serve (.allocateZeroed 4 25)).state.arena.memory.read (0x100028 + i) = 0 := by
  have hplayed : (Heap.session (⟨0x100000, 65536, 0, 4096⟩ : Reservation .common) Reservation.blank
      Config.standard [.allocate 100, .allocate 40]).map (fun s =>
        let written : Heap (Reservation .common) :=
          { s.1 with arena := s.1.arena.write 0x100028 100 fun _ => 0xff }
        let freed := written.serve (.free (some 0x100028))
        (s.2, s.1.arena.usable 0x100028, freed.result.toOption,
          freed.state.arena.memory.read 0x100060,
          (freed.state.serve (.allocateZeroed 4 25)).result.toOption)) =
      some ([⟨0x1000a8, 40⟩, ⟨0x100028, 100⟩], 112, some none, 0xff, some (some 0x100028)) := by
    decide +kernel
  obtain ⟨⟨h, live⟩, hs, hfacts⟩ := Option.map_eq_some_iff.mp hplayed
  simp only [Prod.mk.injEq] at hfacts
  obtain ⟨rfl, husable, hfreed, hdirty, hanswer⟩ := hfacts
  have hsegment : (⟨0x100000, 65536, 0, 4096⟩ : Reservation .common).Paged :=
    Reservation.paged_common (by decide)
  have hwritten := (Reach.of_session hs).write (l := ⟨0x100028, 100⟩) 0x100028 100 (fun _ => 0xff)
    (by simp) (Nat.le_refl _) (by rw [husable]; decide)
  have hreached := hwritten.serve (.free (some 0x100028)) (by decide) (ok_of_toOption hfreed)
  obtain ⟨answer, _, _, hresult, _, _, _, _, hcleared⟩ :=
    (Reach.allocateZeroed_clears Reservation.exact_paged hsegment hreached 4 25).2 (by decide)
      (by decide)
  obtain rfl := Except.ok.inj (hresult.symm.trans (ok_of_toOption hanswer))
  exact ⟨h, hs, hdirty, ok_of_toOption hanswer, (hcleared _ rfl).1⟩

end BlockHeap
