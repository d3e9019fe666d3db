import BlockHeap.Proofs.Contents
import BlockHeap.Proofs.Progress

/-!
# Resizing in place

A payload keeps its address exactly if its block, together with the free block after it, has room
for the block that the new size asks for. Then the segment is not asked for more bytes, and of the
chain only these two blocks change. Otherwise the payload that is answered, if one is, is that of a
block apart from them.
-/

namespace BlockHeap

variable {σ : Type} [Segment σ]

lemma freeHead_mod {blocks : List Piece} (h : ∀ p ∈ blocks, p.Whole) :
    freeHead blocks % blockUnit = 0 := by
  rcases head_cases blocks with ⟨hnone, _⟩ | hfree
  · rw [hnone, Nat.zero_mod]
  · have hp : Piece.Whole ⟨freeHead blocks, .free⟩ := h _ (by rw [hfree]; exact List.mem_cons_self)
    exact hp.2

namespace Arena

variable {P : σ → Prop} {h h' : Arena σ} {pre post blocks' : List Piece} {size new n : Nat}
  {r : Option Nat} {asked : List Event}

namespace Resized

variable (hr : Resized h pre size post n h' r blocks' asked) (hsized : Block.sizeFor n = some new)
include hr hsized

lemma grown_eq (hfits : new ≤ size + freeHead post) : Event.grown asked = [] := by
  cases hr with
  | unsized | same | absorbed => rfl
  | cut _ _ step => exact step.grown_eq
  | moved sized tight =>
    obtain rfl := Option.some.inj (hsized.symm.trans sized)
    omega

/-- A block of the size that is asked for stays as it is, and so does all else. -/
lemma eq_of_same (hsame : new = size) :
    h' = h ∧ blocks' = pre ++ ⟨size, .allocated⟩ :: post := by
  subst hsame
  cases hr with
  | unsized large => exact absurd (large.symm.trans hsized) nofun
  | same _ arena => exact ⟨arena, rfl⟩
  | cut sized | absorbed sized | moved sized =>
    obtain rfl := Option.some.inj (hsized.symm.trans sized)
    omega

/-- What a larger size needs is taken from the front of the free block behind. -/
lemma eq_of_more (hs : h.Sound P (pre ++ ⟨size, .allocated⟩ :: post)) (hmore : size < new)
    (hfits : new ≤ size + freeHead post) :
    blocks' =
      pre ++ ⟨new, .allocated⟩ :: remnant (size + freeHead post - new) ++ restHead post := by
  cases hr with
  | unsized large => exact absurd (large.symm.trans hsized) nofun
  | same sized | cut sized | moved sized =>
    obtain rfl := Option.some.inj (hsized.symm.trans sized)
    omega
  | absorbed sized =>
    obtain rfl := Option.some.inj (hsized.symm.trans sized)
    -- both blocks are whole, so what is left over is none or a block
    have hold := hs.toLaid.whole.2
    have hbehind := freeHead_mod fun p hp =>
      hs.chained.tiles.whole (List.mem_append_right pre (List.mem_cons_of_mem _ hp))
    have htotal : (size + freeHead post) % blockUnit = 0 := by
      simp only [blockUnit] at *
      omega
    rw [carved_eq (Block.sizeFor_spec sized).1 htotal hfits]

/-- What a smaller size leaves over joins the free block behind, and may be trimmed. -/
lemma trimmed_of_less (hless : new < size) :
    Trimmed h (pre ++ [⟨new, .allocated⟩]) (size - new + freeHead post) (restHead post) h' blocks'
      asked := by
  cases hr with
  | unsized large => exact absurd (large.symm.trans hsized) nofun
  | same sized | absorbed sized | moved sized =>
    obtain rfl := Option.some.inj (hsized.symm.trans sized)
    omega
  | cut sized _ step =>
    obtain rfl := Option.some.inj (hsized.symm.trans sized)
    exact step

lemma eq_of_fits (hfits : new ≤ size + freeHead post) :
    r = some (h.start + span pre + wordSize) := by
  cases hr with
  | unsized large => exact absurd (large.symm.trans hsized) nofun
  | same | cut | absorbed => rfl
  | moved sized tight =>
    obtain rfl := Option.some.inj (hsized.symm.trans sized)
    omega

end Resized

variable (hP : Segment.Exact P) (hs : h.Sound P (pre ++ ⟨size, .allocated⟩ :: post)) (hn : 0 < n)
  (hsized : Block.sizeFor n = some new)
include hP hs hn hsized

/-- Where there is no room, the payload that is answered has a block apart from the old one. -/
lemma resize_apart (htight : size + freeHead post < new) {q : Nat}
    (hm : Action.Yields (resize (some (h.start + span pre + wordSize)) n) h (some q) h') :
    q ≠ h.start + span pre + wordSize ∧
      (q - wordSize + new ≤ h.start + span pre ∨ h.start + span pre + size ≤ q - wordSize) := by
  have hpos : 0 < size := hs.toLaid.whole.1
  have hapart := (move_carries hP hs (resize_moves hP hs hn hsized htight hm)).2
  rw [Block.sizeFor_eq hsized] at hapart
  refine ⟨?_, hapart⟩
  rintro rfl
  rw [Nat.add_sub_cancel] at hapart
  omega

/-- The payload stays exactly where there is room. -/
lemma resize_stays_iff (hr : Resized h pre size post n h' r blocks' asked)
    (hm : Action.Yields (resize (some (h.start + span pre + wordSize)) n) h r h') :
    r = some (h.start + span pre + wordSize) ↔ new ≤ size + freeHead post := by
  refine ⟨fun hsame => ?_, hr.eq_of_fits hsized⟩
  subst hsame
  by_contra htight
  exact (resize_apart hP hs hn hsized (by omega) hm).1 rfl

end Arena

variable {P : σ → Prop} {segment : σ} {memory : Memory} {config : Config} {h : Heap σ}
  {live : List Lease}

/-- Over an exact provider, let `old` be the size of a live payload's block and `b` that of the
block that the new size asks for. The payload keeps its address exactly if `b` is no more than `old`
and the free block after it together; then no more bytes are asked for. A larger `b` takes the front
of that free block, a smaller one leaves a free block behind, joined with that free block, to be
trimmed; the rest of the chain stays. Otherwise there is no answer, or the payload of a block
apart. -/
theorem Reach.resize_in_place_iff (hP : Segment.Exact P) (hsegment : P segment)
    (hr : Reach segment memory config h live) {l : Lease} (hl : l ∈ live) {n b : Nat} (hn : 0 < n)
    (hb : IsLeast {k | n + 2 * wordSize ≤ k ∧ blockUnit ∣ k} b) (hlimit : b < Word.limit) :
    let reply := Arena.resize (some l.payload) n h.arena
    let after := h.serve (.resize (some l.payload) n)
    ∃ pre old post r blocks', h.arena.Formed (pre ++ ⟨old, .allocated⟩ :: post) ∧
      l.payload = h.arena.start + span pre + wordSize ∧
      IsLeast {k | l.size + 2 * wordSize ≤ k ∧ blockUnit ∣ k} old ∧
      after.result = .ok r ∧ after.state.arena.Formed blocks' ∧
      after.state.arena.start = h.arena.start ∧
      (r = some l.payload ↔ b ≤ old + freeHead post) ∧
      (r = some l.payload → Event.grown reply.events = []) ∧
      (b = old → after.state = h ∧ blocks' = pre ++ ⟨old, .allocated⟩ :: post) ∧
      (old < b → b ≤ old + freeHead post →
        blocks' = pre ++ ⟨b, .allocated⟩ :: remnant (old + freeHead post - b) ++ restHead post) ∧
      (b < old → Arena.Trimmed h.arena (pre ++ [⟨b, .allocated⟩]) (old - b + freeHead post)
        (restHead post) after.state.arena blocks' (Event.requests reply.events)) ∧
      (old + freeHead post < b → ∀ q, r = some q → q ≠ l.payload ∧
        (q - wordSize, b) ∈ taken h.arena.start blocks' ∧
        (q - wordSize + b ≤ l.payload - wordSize ∨ l.payload - wordSize + old ≤ q - wordSize)) := by
  intro reply after
  obtain ⟨blocks, hh⟩ := hr.held hP hsegment
  obtain ⟨pre, post, rfl, hat⟩ := hh.split hl
  obtain rfl := hb.unique (Block.leastSize_isLeast n)
  have hsized := Block.sizeFor_leastSize hlimit
  obtain ⟨r, h₁, asked, blocks', ⟨_, htrade, _, hgained⟩, hresized⟩ :=
    Arena.resize_trades hP hh.sound hn
  have hyields := htrade.runs.yields
  have hiff := Arena.resize_stays_iff hP hh.sound hn hsized hresized hyields
  rw [← hat] at htrade hiff
  obtain ⟨hresult, hserved⟩ := h.serve_eq (.resize (some l.payload) n)
  have hstate : after.state = ⟨h₁⟩ :=
    hserved.trans (congrArg Heap.mk htrade.runs.arena)
  have hafter := congrArg Heap.arena hstate
  refine ⟨pre, Block.leastSize l.size, post, r, blocks', hh.sound.formed, hat,
    Block.leastSize_isLeast l.size, hresult.trans htrade.runs.result, hafter ▸ htrade.sound.formed,
    hafter ▸ htrade.akin.start, hiff, fun hstays => ?_, fun hsame => ?_,
    hresized.eq_of_more hsized hh.sound, fun hless => ?_, ?_⟩
  · rw [← Event.grown_requests, htrade.runs.requests]
    exact hresized.grown_eq hsized (hiff.mp hstays)
  · obtain ⟨harena, hblocks⟩ := hresized.eq_of_same hsized hsame
    exact ⟨hstate.trans (by rw [harena]), hblocks⟩
  · rw [hafter, htrade.runs.requests]
    exact hresized.trimmed_of_less hsized hless
  · rintro htight q rfl
    obtain ⟨hne, hapart⟩ := Arena.resize_apart hP hh.sound hn hsized htight hyields
    rw [← hat] at hne
    refine ⟨hne, hgained.mem_iff.mpr List.mem_cons_self, ?_⟩
    rwa [hat, Nat.add_sub_cancel]

/-- The block between two others is freed, and the first one takes it in. -/
theorem Reach.resize_in_place_absorbed : ∃ h : Heap (Reservation .common),
    Heap.session (⟨0x100000, 65536, 0, 4096⟩ : Reservation .common) Reservation.blank Config.standard
      [.allocate 8, .allocate 8, .allocate 8, .free (some 0x100048)] =
        some (h, [⟨0x100068, 8⟩, ⟨0x100028, 8⟩]) ∧
    let after := h.serve (.resize (some 0x100028) 40)
    after.result = .ok (some 0x100028) ∧
    Event.grown (Arena.resize (some 0x100028) 40 h.arena).events = [] ∧
    ∃ pre post, h.arena.Formed (pre ++ ⟨32, .allocated⟩ :: post) ∧ 32 ≤ freeHead post ∧
      after.state.arena.Formed
        (pre ++ ⟨64, .allocated⟩ :: remnant (freeHead post - 32) ++ restHead post) := by
  have hplayed : (Heap.session (⟨0x100000, 65536, 0, 4096⟩ : Reservation .common) Reservation.blank
      Config.standard [.allocate 8, .allocate 8, .allocate 8, .free (some 0x100048)]).map (fun s =>
        (s.2, (s.1.serve (.resize (some 0x100028) 40)).result.toOption)) =
      some ([⟨0x100068, 8⟩, ⟨0x100028, 8⟩], some (some 0x100028)) := by
    decide +kernel
  obtain ⟨⟨h, live⟩, hs, hfacts⟩ := Option.map_eq_some_iff.mp hplayed
  obtain ⟨rfl, hanswer⟩ := Prod.mk.inj hfacts
  have hsegment : (⟨0x100000, 65536, 0, 4096⟩ : Reservation .common).Paged :=
    Reservation.paged_common (by decide)
  have hleast : IsLeast {k | 40 + 2 * wordSize ≤ k ∧ blockUnit ∣ k} 64 := Block.leastSize_isLeast 40
  obtain ⟨pre, old, post, r, blocks', hformed, _, hold, hresult, hformed', _, hiff, hgrown, _,
      hmore, _⟩ :=
    Reach.resize_in_place_iff Reservation.exact_paged hsegment (Reach.of_session hs)
      (l := ⟨0x100028, 8⟩) (by simp) (n := 40) (by decide) hleast (by decide)
  obtain rfl := hold.unique (Block.leastSize_isLeast 8)
  obtain rfl := Except.ok.inj (hresult.symm.trans (ok_of_toOption hanswer))
  have hfits : 64 ≤ 32 + freeHead post := hiff.mp rfl
  refine ⟨h, hs, hresult, hgrown rfl, pre, post, hformed, by omega, ?_⟩
  rw [hmore (by decide) hfits] at hformed'
  rwa [show freeHead post - 32 = 32 + freeHead post - 64 by omega]

end BlockHeap
