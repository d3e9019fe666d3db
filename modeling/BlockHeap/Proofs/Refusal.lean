import BlockHeap.Proofs.Agreement

/-!
# Refused requests

A request that cannot be served writes to no byte of a reservation and moves none of the bounds. It
can leave one trace, a next-fit cursor at the first block where there was none before, and no later
call tells the two apart.
-/

namespace BlockHeap

variable {sys : System}

lemma Reservation.grow_refused {r : Reservation sys} {n : Nat} {m : Memory}
    (h : (Segment.grow n r m).refusal ≠ none) :
    (Segment.grow n r m).segment = r ∧ (Segment.grow n r m).memory = m := by
  simp only [Segment.grow] at h ⊢
  split at h
  next hfull => rw [if_pos hfull]; exact ⟨rfl, rfl⟩
  next => exact absurd rfl h

namespace Arena

variable {h h' : Arena (Reservation sys)} {pre post blocks blocks' : List Piece} {size n count : Nat}
  {asked : List Event}

/-- A search that finds nothing leaves the cursor where it was, or where it would have started. -/
lemma Sound.searched_miss {σ : Type} [Segment σ] {P : σ → Prop} {h : Arena σ}
    (hs : h.Sound P blocks) (hmiss : h.search size blocks = none) :
    Near h.start h (h.withPlacement (h.searched size blocks)) := by
  have hstay : h.searched size blocks = h.placement →
      Near h.start h (h.withPlacement (h.searched size blocks)) := fun heq => by
    rw [heq]
    exact .same
  unfold Arena.searched at hstay ⊢
  rcases hp : h.placement with _ | (_ | c) | _
  · rw [hp] at hstay
    exact hstay rfl
  · simp only [hmiss, Option.getD_none]
    exact .parked rfl hp
  · have hin : h.start ≤ c ∧ c < h.stop := by
      obtain ⟨before, p, after, rfl, rfl⟩ := mem_heads_iff.mp (hs.cursor c (by rw [hp]; rfl))
      exact ⟨Nat.le_add_right _ _, block_lt_stop hs.toLaid⟩
    have horigin : h.origin (some c) = c := if_pos hin
    rw [hp] at hstay
    simp only [hmiss, Option.getD_none, horigin] at hstay ⊢
    exact hstay trivial
  · rw [hp] at hstay
    exact hstay rfl

lemma Enlarged.refused_eq (he : Enlarged h size blocks h' none blocks') : h' = h := by
  cases he with
  | refused answer arena =>
    obtain ⟨hsegment, hmemory⟩ := Reservation.grow_refused answer
    rw [arena]
    unfold answered
    rw [hsegment, hmemory]

variable {P : Reservation sys → Prop}

lemma Obtained.refused_near (hs : h.Sound P blocks)
    (ho : Obtained h size blocks h' none blocks' asked) : Near h.start h h' := by
  cases ho with
  | enlarged miss step =>
    rw [step.refused_eq]
    exact hs.searched_miss miss

lemma Allocated.refused_near (hs : h.Sound P blocks)
    (ha : Allocated h n blocks h' none blocks' asked) : Near h.start h h' := by
  cases ha with
  | empty _ arena | unsized _ arena =>
    rw [arena]
    exact .same
  | missed _ step => exact step.refused_near hs

lemma Zeroed.refused_near (hs : h.Sound P blocks)
    (hz : Zeroed h count size blocks h' none blocks' asked) : Near h.start h h' := by
  cases hz with
  | overflow _ arena =>
    rw [arena]
    exact .same
  | failed _ step => exact step.refused_near hs

lemma Resized.refused_near (hs : h.Sound P (pre ++ ⟨size, .allocated⟩ :: post))
    (hr : Resized h pre size post n h' none blocks' asked) : Near h.start h h' := by
  cases hr with
  | unsized _ arena =>
    rw [arena]
    exact .same
  | moved _ _ step =>
    cases step with
    | failed step => exact step.refused_near hs

end Arena

/-- The call asks for memory. -/
def Call.Requests : Call → Prop
  | .allocate _ | .allocateZeroed _ _ => True
  | .resize _ size => 0 < size
  | .free _ => False

/-- A call without a pointer that answers nothing ends no lease and gives none. -/
lemma Call.settle_null {c : Call} (hc : c.pointer = none) (live : List Lease) :
    c.settle live none = live := by
  change c.kept live none = live
  unfold Call.kept
  split
  next => exact List.filter_eq_self.mpr fun l _ => by simp [hc]
  next => rfl

/-- A request that is refused takes no lease away. -/
lemma Call.settle_refused {c : Call} (hc : c.Requests) (live : List Lease) :
    c.settle live none = live := by
  cases c with
  | allocate size => exact settle_null rfl live
  | allocateZeroed count size => exact settle_null rfl live
  | resize payload size =>
    have hpos : 0 < size := hc
    change (Call.resize payload size).kept live none = live
    unfold Call.kept
    rw [if_neg]
    simp only [Call.takes, Option.isSome_none, Bool.or_false, decide_eq_true_eq]
    omega
  | free payload => exact absurd hc id

lemma Call.Ends.refused_near {P : Reservation sys → Prop} {h h' : Arena (Reservation sys)}
    {blocks blocks' : List Piece} {c : Call} {asked : List Event} (hs : h.Sound P blocks)
    (hc : c.Requests) (he : c.Ends h blocks h' none blocks' asked) :
    Arena.Near h.start h h' := by
  cases he with
  | allocated step => exact step.refused_near hs
  | zeroed step => exact step.refused_near hs
  | nothing | freed => exact absurd hc id
  | resizedNull step => exact step.refused_near hs
  | resizedZero => exact absurd hc (Nat.lt_irrefl 0)
  | resized chain _ step =>
    subst chain
    exact step.refused_near hs

variable {σ : Type} [Segment σ]

/-- What is seen of some calls: the answer to each, its notices, and the blocks after it. -/
def Heap.observe (h : Heap σ) :
    List Call → List (Except Fault (Option Nat) × List Record × Except CheckError (List Report.Row))
  | [] => []
  | c :: rest =>
    ((h.serve c).result, (h.serve c).log, (h.serve c).state.check.map Report.rows) ::
      (h.serve c).state.observe rest

lemma Arena.Near.check_rows {P : σ → Prop} {h k : Arena σ} {blocks : List Piece}
    (hn : Arena.Near h.start h k) (hs : h.Sound P blocks) :
    k.check.map Report.rows = h.check.map Report.rows := by
  cases hn with
  | same => rfl
  | parked _ hrest =>
    have hcheck := hs.check_eq.1
    have hparked := Arena.check_eq (hs.toLaid.withPlacement (.nextFit (some h.start)))
      fun c hc => Nat.le_of_eq (Option.some.inj hc)
    rw [hcheck, hparked]
    rfl

/-- Calls on heaps that are near look the same. -/
theorem Heap.observe_near {P : σ → Prop} {h k : Heap σ} {live : List Lease}
    {last : Heap σ × List Lease} {blocks : List Piece} {calls : List Call} (hP : Segment.Exact P)
    (hh : Held P h.arena live blocks) (hn : Arena.Near h.arena.start h.arena k.arena)
    (hplay : h.play live calls = some last) :
    k.observe calls = h.observe calls := by
  induction calls generalizing h k live blocks with
  | nil => rfl
  | cons c rest ih =>
    unfold Heap.play at hplay
    split at hplay
    next hvalid =>
      obtain ⟨r, h', asked, hruns, ⟨blocks', hh'⟩, _, _⟩ := hh.serve hP hvalid
      obtain ⟨hresult, hstate⟩ := h.serve_eq c
      obtain ⟨hresult', hstate'⟩ := k.serve_eq c
      have hagrees := hh.agrees hP hvalid hn
      rw [hresult, hruns.result] at hplay
      have hnear : Arena.Near (h.serve c).state.arena.start (h.serve c).state.arena
          (k.serve c).state.arena := by
        rw [hstate, hstate', hruns.arena, hruns.start, ← hruns.arena]
        exact hagrees.arena
      have hheld : Held P (h.serve c).state.arena (c.settle live r) blocks' := by
        rw [hstate, hruns.arena]
        exact hh'
      have hlog : (k.serve c).log = (h.serve c).log := by
        rw [k.serve_log, h.serve_log, hagrees.events]
      have hrest := ih hheld hnear hplay
      unfold Heap.observe
      rw [hrest, hlog, hresult, hresult', hagrees.result]
      have hrows := hnear.check_rows hheld.sound
      unfold Heap.check
      rw [hrows]
    next => exact absurd hplay (by simp)

variable {segment : Reservation sys} {memory : Memory} {config : Config} {h : Heap (Reservation sys)}
  {live : List Lease}

/-- Over a reservation, a request that is refused changes no byte, no bound and no lease, and whatever
calls follow, what is seen of them is the same as if the request had not been made. -/
theorem Reach.refused (hsegment : segment.Paged) (hr : Reach segment memory config h live) {c : Call}
    (hc : c.Valid live) (hrequest : c.Requests) (hrefused : (h.serve c).result = .ok none) :
    (h.serve c).state.arena.memory = h.arena.memory ∧
      (h.serve c).state.arena.segment = h.arena.segment ∧
      (h.serve c).state.arena.start = h.arena.start ∧
      (h.serve c).state.arena.stop = h.arena.stop ∧
      (h.serve c).state.arena.floor = h.arena.floor ∧
      c.settle live none = live ∧
      ∀ (calls : List Call) (last : Heap (Reservation sys) × List Lease),
        h.play live calls = some last → (h.serve c).state.observe calls = h.observe calls := by
  obtain ⟨blocks, hh⟩ := hr.held Reservation.exact_paged hsegment
  obtain ⟨r, h', asked, blocks', ⟨_, hl, _, _⟩, hends⟩ := hh.call_trades Reservation.exact_paged hc
  obtain ⟨hresult, hstate⟩ := h.serve_eq c
  obtain rfl := Except.ok.inj (hl.runs.result.symm.trans (hresult.symm.trans hrefused))
  have hnear := hends.refused_near hh.sound hrequest
  have hsame : h'.memory = h.arena.memory ∧ h'.segment = h.arena.segment ∧
      h'.start = h.arena.start ∧ h'.stop = h.arena.stop ∧ h'.floor = h.arena.floor := by
    cases hnear with
    | same => exact ⟨rfl, rfl, rfl, rfl, rfl⟩
    | parked => exact ⟨rfl, rfl, rfl, rfl, rfl⟩
  obtain ⟨hmemory, hsegments, hstart, hstop, hfloor⟩ := hsame
  rw [hstate, hl.runs.arena]
  refine ⟨hmemory, hsegments, hstart, hstop, hfloor, Call.settle_refused hrequest live, ?_⟩
  intro calls last hplay
  exact Heap.observe_near Reservation.exact_paged hh hnear hplay

/-- The first request of a next-fit heap is too large, and leaves the cursor at the first block. -/
theorem Reach.refused_played : ∃ (h : Heap (Reservation .common)),
    Heap.session (⟨0x100000, 4096, 0, 4096⟩ : Reservation .common) Reservation.blank
      ⟨.nextFit, 1024, 1024, .off⟩ [] = some (h, []) ∧
    (h.serve (.allocate 5000)).result = .ok none ∧
    (h.serve (.allocate 5000)).state.observe
        [.allocate 100, .allocate 200, .resize (some 0x100028) 300, .allocate 50] =
      h.observe [.allocate 100, .allocate 200, .resize (some 0x100028) 300, .allocate 50] := by
  have hplayed : (Heap.session (⟨0x100000, 4096, 0, 4096⟩ : Reservation .common) Reservation.blank
      ⟨.nextFit, 1024, 1024, .off⟩ []).map (fun s =>
        (s.2, (s.1.serve (.allocate 5000)).result.toOption, (s.1.play s.2
          [.allocate 100, .allocate 200, .resize (some 0x100028) 300, .allocate 50]).isSome)) =
      some ([], some none, true) := by
    decide +kernel
  obtain ⟨⟨h, live⟩, hs, hfacts⟩ := Option.map_eq_some_iff.mp hplayed
  obtain ⟨rfl, hfacts⟩ := Prod.mk.inj hfacts
  obtain ⟨hanswer, hcalls⟩ := Prod.mk.inj hfacts
  obtain ⟨last, hlast⟩ := Option.isSome_iff_exists.mp hcalls
  have hsegment : (⟨0x100000, 4096, 0, 4096⟩ : Reservation .common).Paged :=
    Reservation.paged_common (by decide)
  have hrefused : (h.serve (.allocate 5000)).result = .ok none := by
    dsimp only at hanswer
    cases hresult : (h.serve (.allocate 5000)).result with
    | error fault =>
      rw [hresult] at hanswer
      exact absurd hanswer nofun
    | ok answer =>
      rw [hresult] at hanswer
      exact congrArg Except.ok (Option.some.inj hanswer)
  obtain ⟨_, _, _, _, _, _, hobserve⟩ := Reach.refused hsegment (.of_session hs)
    (c := .allocate 5000) (by decide) trivial hrefused
  exact ⟨h, hs, hrefused, hobserve _ last hlast⟩

end BlockHeap
