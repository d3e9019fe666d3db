import BlockHeap.Proofs.Astray
import BlockHeap.Proofs.Stale

/-!
# Resizing what was freed

A pointer has lapsed once its block was freed and no allocated block has been there since. Resizing
takes it at its word: it reads a size from where its header was and never looks at the status. That is
safe as long as it makes an allocated block of what it finds, or leaves it alone, but not if it answers
the pointer and leaves the block free.
-/

namespace BlockHeap

variable {σ : Type} [Segment σ]

/-- The heaps that a session goes on to from a heap with some leases, as long as the leases meet a
condition after each call. -/
inductive Onward (Q : List Lease → Prop) (h₀ : Heap σ) (live₀ : List Lease) :
    Heap σ → List Lease → Prop where
  | here : Onward Q h₀ live₀ h₀ live₀
  | serve {h : Heap σ} {live : List Lease} {answer : Option Nat} (c : Call)
      (before : Onward Q h₀ live₀ h live) (valid : c.Valid live)
      (served : (h.serve c).result = .ok answer) (meets : Q (c.settle live answer)) :
      Onward Q h₀ live₀ (h.serve c).state (c.settle live answer)
  | write {h : Heap σ} {live : List Lease} {l : Lease} (a count : Nat) (f : Nat → UInt8)
      (before : Onward Q h₀ live₀ h live) (held : l ∈ live) (low : l.payload ≤ a)
      (high : a + count ≤ l.payload + h.arena.usable l.payload) :
      Onward Q h₀ live₀ { h with arena := h.arena.write a count f } live

variable {P : σ → Prop} {segment : σ} {memory : Memory} {config : Config} {Q : List Lease → Prop}
  {h h₀ : Heap σ} {live live₀ : List Lease} {l : Lease} {n k : Nat}

lemma Reach.onward (hr : Reach segment memory config h₀ live₀) (ho : Onward Q h₀ live₀ h live) :
    Reach segment memory config h live := by
  induction ho with
  | here => exact hr
  | serve c _ valid served _ ih => exact .serve c ih valid served
  | write a count f _ held low high ih => exact .write a count f ih held low high

lemma Onward.last (ho : Onward Q h₀ live₀ h live) (hfirst : Q live₀) : Q live := by
  induction ho with
  | here => exact hfirst
  | serve _ _ _ _ meets _ => exact meets
  | write _ _ _ _ _ _ _ ih => exact ih

lemma Held.onward (hP : Segment.Exact P) {blocks₀ : List Piece}
    (hh : Held P h₀.arena live₀ blocks₀) (ho : Onward Q h₀ live₀ h live) :
    ∃ blocks, Held P h.arena live blocks := by
  induction ho with
  | here => exact ⟨blocks₀, hh⟩
  | serve c _ valid served _ ih =>
    obtain ⟨blocks, hh⟩ := ih
    exact (hh.served hP valid served).held
  | write a count f _ held low high ih =>
    obtain ⟨blocks, hh⟩ := ih
    exact ⟨blocks, hh.written held f low high⟩

/-- No call answers a payload that is held on. -/
lemma Held.answer_ne (hP : Segment.Exact P) {blocks : List Piece} (hh : Held P h.arena live blocks)
    {c : Call} {q : Nat} (hc : c.Valid live) (hanswer : (h.serve c).result = .ok (some q))
    (hl : l ∈ c.kept live (some q)) : q ≠ l.payload := by
  obtain ⟨blocks', hh'⟩ := (hh.served hP hc hanswer).held
  have hnodup : (q :: (c.kept live (some q)).map Lease.payload).Nodup := hh'.payload_nodup
  rintro rfl
  exact (List.nodup_cons.mp hnodup).1 (List.mem_map_of_mem hl)

lemma Arena.Formed.unique {h : Arena σ} {xs ys : List Piece} (hx : h.Formed xs) (hy : h.Formed ys) :
    xs = ys :=
  hx.tiles.unique hy.tiles (Nat.add_left_cancel (hx.lands.trans hy.lands.symm))

/-- The lease was ended at some point, and since then none of the live ones came to where its block
was. -/
def Lapsed (segment : σ) (memory : Memory) (config : Config) (h : Heap σ) (live : List Lease)
    (l : Lease) : Prop :=
  ∃ h₀ live₀ c answer, Reach segment memory config h₀ live₀ ∧ c.Valid live₀ ∧
    (h₀.serve c).result = .ok answer ∧ l ∈ c.ended live₀ answer ∧
    l.Vacant (c.settle live₀ answer) ∧
    Onward l.Vacant (h₀.serve c).state (c.settle live₀ answer) h live

/-- The heap after the pointer was resized is well formed, what is answered is the payload of a block
that its chain marks allocated, and no call after it answers a payload that is held on. -/
def Heap.ResizesSafely (h : Heap σ) (live : List Lease) (l : Lease) (n : Nat) : Prop :=
  ∃ answer blocks, (h.resize (some l.payload) n).result = .ok answer ∧
    (h.resize (some l.payload) n).state.arena.Formed blocks ∧
    (∀ p ∈ answer, ∃ size,
      (p - wordSize, size) ∈ taken (h.resize (some l.payload) n).state.arena.start blocks) ∧
    ∀ h' live', Onward (fun _ => True) (h.resize (some l.payload) n).state
        ((Call.resize (some l.payload) n).settle live answer) h' live' →
      ∀ (c : Call) (q : Nat), c.Valid live' → (h'.serve c).result = .ok (some q) →
        ∀ l' ∈ c.kept live' (some q), q ≠ l'.payload

namespace Held

variable {h' : Arena σ} {r : Option Nat} {blocks blocks' : List Piece}

/-- Resizing that leaves the allocated blocks to their holders is safe. -/
lemma resizes_safely (hP : Segment.Exact P)
    (hr : Action.Yields (Arena.resize (some l.payload) n) h.arena r h')
    (hh : Held P h' ((Call.resize (some l.payload) n).settle live r) blocks) :
    h.ResizesSafely live l n := by
  obtain ⟨hresult, rfl⟩ := hr
  change Held P (h.resize (some l.payload) n).state.arena _ _ at hh
  refine ⟨r, blocks, hresult, hh.sound.formed, fun p hp => ?_, fun h' live' ho c q hc hq l' hl' => ?_⟩
  · obtain rfl := Option.mem_def.mp hp
    have hmem : (⟨p, n⟩ : Lease) ∈ (Call.resize (some l.payload) n).settle live (some p) :=
      List.mem_append_left _ (List.mem_singleton.mpr rfl)
    have hblock := hh.mem_taken hmem
    exact ⟨Block.leastSize n, hblock⟩
  · obtain ⟨blocks', hh'⟩ := hh.onward hP ho
    exact hh'.answer_ne hP hc hq hl'

end Held

namespace Lapsed

/-- A pointer lapses as soon as it is freed. -/
lemma of_freed (hP : Segment.Exact P) (hsegment : P segment)
    (hr : Reach segment memory config h live) (hl : l ∈ live) :
    Lapsed segment memory config (h.serve (.free (some l.payload))).state
      ((Call.free (some l.payload)).settle live none) l := by
  obtain ⟨blocks, hh⟩ := hr.held hP hsegment
  obtain ⟨hvalid, hserved, hended, hvacant⟩ := hh.free_ends hP hl
  exact ⟨h, live, _, none, hr, hvalid, hserved, hended, hvacant, .here⟩

lemma reach (hl : Lapsed segment memory config h live l) : Reach segment memory config h live := by
  obtain ⟨h₀, live₀, c, answer, hr, hvalid, hserved, _, _, ho⟩ := hl
  exact (hr.serve c hvalid hserved).onward ho

lemma vacant (hl : Lapsed segment memory config h live l) : l.Vacant live := by
  obtain ⟨_, _, _, _, _, _, _, _, hvacant, ho⟩ := hl
  exact ho.last hvacant

/-- The block that a lapsed pointer had lies a word below it. -/
lemma address (hP : Segment.Exact P) (hsegment : P segment)
    (hl : Lapsed segment memory config h live l) :
    wordSize ≤ l.payload ∧ l.payload < Word.limit ∧
      Block.ofPayload l.payload = l.payload - wordSize ∧ (l.payload - wordSize) % blockUnit = 0 := by
  obtain ⟨h₀, live₀, c, answer, hr, _, _, hended, _, _⟩ := hl
  obtain ⟨blocks, hh⟩ := hr.held hP hsegment
  have hmem := (c.ended_kept live₀ answer).mem_iff.mp (List.mem_append_left _ hended)
  obtain ⟨_, hhigh, hunit, hat⟩ := hh.block_address hmem
  have hlt := hh.sound.toLaid.stop_lt_limit
  have hle := (taken_whole hh.sound.chained.tiles (hh.mem_taken hmem)).le
  have hpayload : l.block.1 + wordSize < Word.limit := by
    simp only [minBlockSize, wordSize] at *
    omega
  have hblock := Block.ofPayload_eq hpayload
  rw [← hat] at hpayload hblock
  exact ⟨by omega, hpayload, hblock, hunit⟩

end Lapsed

/-- Resizing a pointer that nobody holds ends no lease. -/
lemma Lease.Vacant.settle_resize (hvacant : l.Vacant live) (r : Option Nat) :
    (Call.resize (some l.payload) n).settle live r = Lease.given r n ++ live := by
  have hkept : live.filter (fun l' => some l'.payload ≠ some l.payload) = live := by
    refine List.filter_eq_self.mpr fun l' hl' => ?_
    have hapart := hvacant l' hl'
    have hroom := Block.le_leastSize l.size
    have hroom' := Block.le_leastSize l'.size
    simp only [Lease.block, wordSize, ne_eq, Option.some.injEq, decide_not, Bool.not_eq_true',
      decide_eq_false_iff_not] at *
    omega
  unfold Call.settle Call.kept
  split
  · exact congrArg _ hkept
  · rfl

/-- Resizing a live pointer is safe. -/
lemma Reach.resizes_safely (hP : Segment.Exact P) (hsegment : P segment)
    (hr : Reach segment memory config h live) (hl : l ∈ live) (n : Nat) :
    h.ResizesSafely live l n := by
  obtain ⟨blocks, hh⟩ := hr.held hP hsegment
  have hvalid : (Call.resize (some l.payload) n).Valid live := fun p hp =>
    List.mem_map.mpr ⟨l, hl, Option.some.inj hp⟩
  obtain ⟨r, h', asked, hruns, ⟨blocks', hh'⟩, _⟩ := hh.serve hP hvalid
  exact Held.resizes_safely hP hruns.yields hh'

namespace Lapsed

/-- Resizing a lapsed pointer is safe if the leases stay with their blocks and the one that is given
gets its own. -/
lemma resizes_safely {h' : Arena σ} {r : Option Nat} {blocks : List Piece} (hP : Segment.Exact P)
    (hl : Lapsed segment memory config h live l)
    (hr : Action.Yields (Arena.resize (some l.payload) n) h.arena r h')
    (hh : Held P h' (Lease.given r n ++ live) blocks) : h.ResizesSafely live l n := by
  rw [← hl.vacant.settle_resize] at hh
  exact Held.resizes_safely hP hr hh

end Lapsed

/-- A pointer that was held at the end of a session and then freed, with what the heap shows. -/
lemma Lapsed.of_session {β : Type} {sys : System} {reservation : Reservation sys}
    (hpaged : reservation.Paged) (calls : List Call) (live : List Lease) (l : Lease) (f : Heap (Reservation sys) → β) (x : β)
    (hplayed : (Heap.session reservation Reservation.blank Config.standard calls).map
      (fun s => (s.2, f (s.1.serve (.free (some l.payload))).state)) = some (live, x))
    (hl : l ∈ live) :
    ∃ h, Heap.session reservation Reservation.blank Config.standard calls = some (h, live) ∧
      Lapsed reservation Reservation.blank Config.standard
        (h.serve (.free (some l.payload))).state
        ((Call.free (some l.payload)).settle live none) l ∧
      f (h.serve (.free (some l.payload))).state = x := by
  obtain ⟨⟨h, live'⟩, hs, hshown⟩ := Option.map_eq_some_iff.mp hplayed
  obtain ⟨hlive, hfacts⟩ := Prod.mk.inj hshown
  have hlive : live' = live := hlive
  subst hlive
  exact ⟨h, hs, .of_freed Reservation.exact_paged hpaged (Reach.of_session hs) hl, hfacts⟩

end BlockHeap
