import BlockHeap.Locked
import BlockHeap.Proofs.Ownership
import BlockHeap.Proofs.Refusal

/-!
# Locked heaps

A lock is transparent until an operation faults: each request is the heap's own call, or is refused
for its alignment and changes nothing. After a fault the lock is dead, and nothing asked of it has
an answer or an effect. Over an exact provider, a run that hands back only what it holds never gets
there, and what it is handed is aligned and its own.
-/

namespace BlockHeap

lemma error_of_toOption {ε α : Type} {e : Except ε α} (h : e.toOption = none) :
    ∃ x, e = .error x := by
  cases e with
  | error x => exact ⟨x, rfl⟩
  | ok _ => exact absurd h nofun

/-- The layout is one that a value can have. -/
def Layout.Proper (layout : Layout) : Prop :=
  Layout.create? layout.size layout.align = some layout

instance (layout : Layout) : Decidable layout.Proper :=
  inferInstanceAs (Decidable (_ = _))

/-- Alignments are powers of two. -/
lemma Layout.Proper.align_dvd {layout : Layout} (hl : layout.Proper)
    (hle : layout.align ≤ Locked.maxAlign) : layout.align ∣ Locked.maxAlign := by
  unfold Layout.Proper Layout.create? at hl
  obtain ⟨⟨hpos, hbits, _⟩, _⟩ := Option.ite_none_right_eq_some.mp hl
  generalize layout.align = align at hpos hbits hle
  change align ≤ 8 at hle
  change align ∣ 8
  interval_cases align <;> revert hpos hbits <;> decide

lemma Heap.serve_free {σ : Type} [Segment σ] (h : Heap σ) (payload : Option Nat) :
    h.serve (.free payload) = ⟨(h.run (Arena.free payload)).result.map fun _ => none,
      (h.run (Arena.free payload)).state, (h.run (Arena.free payload)).log⟩ :=
  rfl

/-- What the heap answers to a call is what its action does. -/
lemma Heap.serve_eq_run {σ : Type} [Segment σ] (h : Heap σ) (c : Call) :
    h.serve c = h.run c.action := by
  obtain ⟨hresult, hstate⟩ := h.serve_eq c
  have hlog := h.serve_log c
  generalize h.serve c = outcome at hresult hstate hlog
  obtain ⟨result, state, log⟩ := outcome
  rw [show result = _ from hresult, show state = _ from hstate, show log = _ from hlog]
  rfl

/-- The `size` bytes of a live payload lie in the arena, apart from all other live blocks. -/
structure Arena.Owns {σ : Type} (h : Arena σ) (live : List Lease) (p size : Nat) : Prop where
  held : ⟨p, size⟩ ∈ live
  inside : h.start ≤ p ∧ p + size ≤ h.stop
  apart : ∀ l ∈ live, l.payload ≠ p → p + size ≤ l.block.1 ∨ l.block.1 + l.block.2 ≤ p

lemma Held.owns {σ : Type} [Segment σ] {P : σ → Prop} {h : Arena σ} {live : List Lease}
    {blocks : List Piece} {p size : Nat} (hh : Held P h live blocks) (hp : ⟨p, size⟩ ∈ live) :
    h.Owns live p size := by
  obtain ⟨hlow, hhigh, _, hat⟩ := hh.block_address hp
  have hfits := Block.le_leastSize size
  simp only [Lease.block, wordSize] at hlow hhigh hat hfits
  refine ⟨hp, ⟨by omega, by omega⟩, fun l hl hne => ?_⟩
  have hapart := hh.blocks_apart hp hl (Ne.symm hne)
  simp only [Lease.block, wordSize] at hapart ⊢
  omega

/-- Payloads lie one word behind a multiple of the block unit. -/
lemma Held.payload_dvd {σ : Type} [Segment σ] {P : σ → Prop} {h : Arena σ} {live : List Lease}
    {blocks : List Piece} {l : Lease} (hh : Held P h live blocks) (hl : l ∈ live) :
    wordSize ∣ l.payload := by
  obtain ⟨_, _, hmod, hat⟩ := hh.block_address hl
  rw [hat]
  simp only [blockUnit, wordSize] at *
  omega

/-- The bytes of a payload whose block is spared. -/
lemma Held.unmoved {σ : Type} [Segment σ] {P : σ → Prop} {h h' : Arena σ} {live : List Lease}
    {blocks : List Piece} {l : Lease} (hh : Held P h live blocks) (hl : l ∈ live)
    (hspares : h.Spares h' (live.map Lease.block)) {a : Nat} (hlow : l.payload ≤ a)
    (hhigh : a < l.payload + h.usable l.payload) : h'.memory.read a = h.memory.read a := by
  have husable := hh.usable_eq hl
  have hword := hh.word_le l hl
  refine hspares l.block (List.mem_map_of_mem hl) a ?_ ?_ <;>
    simp only [Lease.block, wordSize] at * <;> omega

namespace Locked

/-- What is asked of a locked heap. -/
inductive Request where
  | allocate (layout : Layout)
  | allocateZeroed (layout : Layout)
  | free (payload : Option Nat)
  | resize (payload : Option Nat) (layout : Layout) (size : Nat)
deriving DecidableEq, Repr

namespace Request

/-- The call of the heap that the request stands for. -/
def call : Request → Call
  | allocate layout => .allocate layout.size
  | allocateZeroed layout => .allocateZeroed 1 layout.size
  | free payload => .free payload
  | resize payload _ size => .resize payload size

/-- The layout of the payload that the request is to answer with. -/
def layout? : Request → Option Layout
  | allocate layout => some layout
  | allocateZeroed layout => some layout
  | free _ => none
  | resize _ layout _ => some layout

/-- The request is for an alignment that cannot be had. -/
def Strict (r : Request) : Prop :=
  ∃ layout ∈ r.layout?, maxAlign < layout.align

instance (r : Request) : Decidable r.Strict :=
  inferInstanceAs (Decidable (∃ layout ∈ r.layout?, maxAlign < layout.align))

/-- The leases after the request. -/
def settle (live : List Lease) (answer : Option Nat) (r : Request) : List Lease :=
  if r.Strict then live else r.call.settle live answer

end Request

variable {σ : Type} [Segment σ]

/-- What the locked heap answers to a request. -/
def serve (l : Locked σ) : Request → Outcome (Locked σ) (Option Nat)
  | .allocate layout => l.allocate layout
  | .allocateZeroed layout => l.allocateZeroed layout
  | .free payload =>
    let outcome := l.free payload
    ⟨outcome.result.map fun _ => none, outcome.state, outcome.log⟩
  | .resize payload layout size => l.resize payload layout size

/-- What the locked heap answers to some requests, one after the other, also after a fault. -/
def trace (l : Locked σ) : List Request → List (Outcome (Locked σ) (Option Nat))
  | [] => []
  | r :: rs => l.serve r :: (l.serve r).state.trace rs

/-- The locked heap after some requests. -/
def after (l : Locked σ) : List Request → Locked σ
  | [] => l
  | r :: rs => (l.serve r).state.after rs

/-- Whether a result is a fault. -/
def faulted {α : Type} : Except Fault α → Bool
  | .ok _ => false
  | .error _ => true

section Lock

omit [Segment σ]
variable {l : Locked σ} {α : Type}

lemma run_poisoned (hp : l.poisoned = true) (idle : α) (action : Action σ α) :
    l.run idle action = ⟨.ok idle, l, []⟩ :=
  if_pos hp

/-- Under a lock that is not poisoned, an action runs as on the heap. -/
lemma run_clear (hp : l.poisoned = false) (idle : α) (action : Action σ α) :
    l.run idle action = ⟨(l.heap.run action).result,
      ⟨(l.heap.run action).state, faulted (l.heap.run action).result⟩,
      (l.heap.run action).log⟩ := by
  unfold run
  rw [hp]
  cases h : (l.heap.run action).result <;> simp [h, faulted]

end Lock

variable {l : Locked σ} {r : Request}

/-- A request for too large an alignment never reaches the lock. -/
lemma serve_strict (l : Locked σ) (hr : r.Strict) : l.serve r = ⟨.ok none, l, []⟩ := by
  obtain ⟨layout, hlayout, halign⟩ := hr
  cases r with
  | free payload => exact absurd hlayout nofun
  | allocate layout' | allocateZeroed layout' | resize payload layout' size =>
    obtain rfl := Option.some.inj hlayout
    exact if_pos halign

lemma serve_free (l : Locked σ) (payload : Option Nat) :
    l.serve (.free payload) = ⟨(l.run () (Arena.free payload)).result.map fun _ => none,
      (l.run () (Arena.free payload)).state, (l.run () (Arena.free payload)).log⟩ :=
  rfl

/-- Every other request runs its call under the lock. -/
lemma serve_run (l : Locked σ) (hr : ¬r.Strict) : l.serve r = l.run none r.call.action := by
  cases r with
  | allocate layout => exact if_neg fun halign => hr ⟨layout, rfl, halign⟩
  | allocateZeroed layout => exact if_neg fun halign => hr ⟨layout, rfl, halign⟩
  | resize payload layout size => exact if_neg fun halign => hr ⟨layout, rfl, halign⟩
  | free payload =>
    rw [serve_free]
    cases hp : l.poisoned with
    | true =>
      rw [run_poisoned hp, run_poisoned hp]
      rfl
    | false =>
      rw [run_clear hp, run_clear hp]
      unfold Request.call
      rw [← l.heap.serve_eq_run, Heap.serve_free]
      generalize l.heap.run (Arena.free payload) = outcome
      obtain ⟨fault | x, state, log⟩ := outcome <;> rfl

/-- A poisoned lock answers nothing and changes nothing. -/
lemma serve_poisoned (hp : l.poisoned = true) (r : Request) : l.serve r = ⟨.ok none, l, []⟩ := by
  by_cases hr : r.Strict
  · exact l.serve_strict hr
  · exact (l.serve_run hr).trans (run_poisoned hp _ _)

/-- A lock that is not poisoned answers as its heap does, and a fault poisons it. -/
lemma serve_clear (hp : l.poisoned = false) (hr : ¬r.Strict) :
    l.serve r = ⟨(l.heap.serve r.call).result,
      ⟨(l.heap.serve r.call).state, faulted (l.heap.serve r.call).result⟩,
      (l.heap.serve r.call).log⟩ := by
  rw [l.serve_run hr, run_clear hp, l.heap.serve_eq_run]

lemma poisoned_of_fault {fault : Fault} (hf : (l.serve r).result = .error fault) :
    (l.serve r).state.poisoned = true := by
  by_cases hr : r.Strict
  · rw [l.serve_strict hr] at hf
    exact absurd hf nofun
  · cases hp : l.poisoned with
    | true =>
      rw [serve_poisoned hp] at hf
      exact absurd hf nofun
    | false =>
      rw [serve_clear hp hr] at hf ⊢
      change (l.heap.serve r.call).result = .error fault at hf
      rw [hf]
      rfl

lemma clear_of_answer {answer : Option Nat} (hp : l.poisoned = false)
    (ha : (l.serve r).result = .ok answer) : (l.serve r).state.poisoned = false := by
  by_cases hr : r.Strict
  · rw [l.serve_strict hr]
    exact hp
  · rw [serve_clear hp hr] at ha ⊢
    change (l.heap.serve r.call).result = .ok answer at ha
    rw [ha]
    rfl

/-- The lock lets every request through to its heap, but for those whose alignment cannot be had. -/
structure Transparent (l : Locked σ) : Prop where
  unlocks : l.intoHeap? = some l.heap
  refused : ∀ r : Request, r.Strict → l.serve r = ⟨.ok none, l, []⟩
  result : ∀ r : Request, ¬r.Strict → (l.serve r).result = (l.heap.serve r.call).result
  heap : ∀ r : Request, ¬r.Strict → (l.serve r).state.heap = (l.heap.serve r.call).state
  log : ∀ r : Request, ¬r.Strict → (l.serve r).log = (l.heap.serve r.call).log

/-- Nothing is answered any more, nothing changes, and the heap does not come out. -/
structure Dead (l : Locked σ) : Prop where
  closed : l.intoHeap? = none
  stays : ∀ rs, l.after rs = l
  answers : ∀ rs, ∀ o ∈ l.trace rs, o.result = .ok none ∧ o.log = [] ∧ o.state = l

lemma transparent (hp : l.poisoned = false) : l.Transparent := by
  refine ⟨?_, fun r => l.serve_strict, fun r hr => ?_, fun r hr => ?_, fun r hr => ?_⟩
  · unfold intoHeap?
    rw [hp]
    rfl
  all_goals rw [serve_clear hp hr]

lemma dead (hp : l.poisoned = true) : l.Dead := by
  refine ⟨if_pos hp, fun rs => ?_, fun rs => ?_⟩
  · induction rs with
    | nil => rfl
    | cons r rs ih =>
      unfold after
      rw [serve_poisoned hp]
      exact ih
  · induction rs with
    | nil => exact fun o ho => absurd ho List.not_mem_nil
    | cons r rs ih =>
      unfold trace
      rw [serve_poisoned hp]
      intro o ho
      rcases List.mem_cons.mp ho with rfl | hlater
      · exact ⟨rfl, rfl, rfl⟩
      · exact ih o hlater

/-- A lock that is not poisoned stays so as long as nothing faults. -/
lemma after_clear {rs : List Request} (hp : l.poisoned = false)
    (hanswered : ∀ o ∈ l.trace rs, ∃ answer, o.result = .ok answer) :
    (l.after rs).poisoned = false := by
  induction rs generalizing l with
  | nil => exact hp
  | cons r rs ih =>
    obtain ⟨answer, hanswer⟩ := hanswered _ List.mem_cons_self
    exact ih (clear_of_answer hp hanswer) fun o ho => hanswered o (List.mem_cons_of_mem _ ho)

/-- One fault in a run poisons the lock for good. -/
lemma after_poisoned {rs : List Request}
    (hfaulted : ∃ o ∈ l.trace rs, ∃ fault, o.result = .error fault) :
    (l.after rs).poisoned = true := by
  induction rs generalizing l with
  | nil =>
    obtain ⟨o, ho, _⟩ := hfaulted
    exact absurd ho List.not_mem_nil
  | cons r rs ih =>
    obtain ⟨o, ho, fault, hfault⟩ := hfaulted
    rcases List.mem_cons.mp ho with rfl | hlater
    · have hp := poisoned_of_fault hfault
      change ((l.serve r).state.after rs).poisoned = true
      rw [(dead hp).stays]
      exact hp
    · exact ih ⟨o, hlater, fault, hfault⟩

/-- The locked heaps that a session leads to, with the leases that are live then. The heap may have
served before it was locked. -/
inductive Reach (segment : σ) (memory : Memory) (config : Config) :
    Locked σ → List Lease → Prop where
  | lock {h : Heap σ} {live : List Lease} (before : BlockHeap.Reach segment memory config h live) :
      Reach segment memory config (ofHeap h) live
  | serve {l : Locked σ} {live : List Lease} {answer : Option Nat} (r : Request)
      (before : Reach segment memory config l live) (valid : r.call.Valid live)
      (served : (l.serve r).result = .ok answer) :
      Reach segment memory config (l.serve r).state (r.settle live answer)
  | write {l : Locked σ} {live : List Lease} {lease : Lease} (a count : Nat) (f : Nat → UInt8)
      (before : Reach segment memory config l live) (held : lease ∈ live) (low : lease.payload ≤ a)
      (high : a + count ≤ lease.payload + l.heap.arena.usable lease.payload) :
      Reach segment memory config
        { l with heap := { l.heap with arena := l.heap.arena.write a count f } } live

variable {segment : σ} {memory : Memory} {config : Config} {live : List Lease}

/-- A session of a locked heap is one of its heap, and no request of it has faulted. -/
lemma Reach.heap (hr : Reach segment memory config l live) :
    l.poisoned = false ∧ BlockHeap.Reach segment memory config l.heap live := by
  induction hr with
  | lock before => exact ⟨rfl, before⟩
  | write a count f _ held low high ih => exact ⟨ih.1, .write a count f ih.2 held low high⟩
  | serve r _ valid served ih =>
    obtain ⟨hp, hreach⟩ := ih
    refine ⟨clear_of_answer hp served, ?_⟩
    unfold Request.settle
    split
    next hstrict =>
      rw [serve_strict _ hstrict]
      exact hreach
    next hstrict =>
      rw [(transparent hp).heap r hstrict]
      rw [(transparent hp).result r hstrict] at served
      exact .serve r.call hreach valid served

/-- What a session of a locked heap may count on when it makes a request: an answer without a fault,
live payloads that are the allocated blocks, a payload that is aligned and its own, and one that is
still there with its bytes if no larger one was to be had. -/
structure Kept (l l' : Locked σ) (r : Request) (live : List Lease) (answer : Option Nat) :
    Prop where
  clear : l'.poisoned = false
  allocated : ∃ blocks, l'.heap.arena.Formed blocks ∧
    ((r.settle live answer).map Lease.block).Perm (taken l'.heap.arena.start blocks)
  aligned : ∀ p ∈ answer, ∀ layout ∈ r.layout?, layout.Proper → layout.align ∣ p
  owned : ∀ p ∈ answer, l'.heap.arena.Owns (r.settle live answer) p r.call.size
  unmoved : ∀ p layout size, r = .resize (some p) layout size → size ≠ 0 → answer = none →
    r.settle live answer = live ∧ ∀ a, p ≤ a → a < p + l.heap.arena.usable p →
      l'.heap.arena.memory.read a = l.heap.arena.memory.read a

lemma Reach.kept_strict {P : σ → Prop} (hP : Segment.Exact P) (hsegment : P segment)
    (hr : Reach segment memory config l live) (hstrict : r.Strict) : Kept l l r live none := by
  obtain ⟨hp, hreach⟩ := hr.heap
  obtain ⟨blocks, hh⟩ := hreach.held hP hsegment
  have hsettle : r.settle live none = live := if_pos hstrict
  refine ⟨hp, ⟨blocks, hh.sound.formed, ?_⟩, nofun, nofun, ?_⟩
  · rw [hsettle]
    exact hh.leases
  · exact fun _ _ _ _ _ _ => ⟨hsettle, fun _ _ _ => rfl⟩

/-- A session goes on from every request, and the client may count on it. -/
theorem Reach.kept {P : σ → Prop} (hP : Segment.Exact P) (hsegment : P segment)
    (hr : Reach segment memory config l live) {r : Request} (hvalid : r.call.Valid live) :
    ∃ answer, (l.serve r).result = .ok answer ∧ Kept l (l.serve r).state r live answer := by
  by_cases hstrict : r.Strict
  · rw [l.serve_strict hstrict]
    exact ⟨none, rfl, hr.kept_strict hP hsegment hstrict⟩
  obtain ⟨hp, hreach⟩ := hr.heap
  obtain ⟨blocks, hh⟩ := hreach.held hP hsegment
  obtain ⟨answer, h', asked, hruns, ⟨blocks', hh'⟩, _, hspares⟩ := hh.serve hP hvalid
  have hresult : (l.serve r).result = .ok answer := by
    rw [(transparent hp).result r hstrict, (l.heap.serve_eq r.call).1, hruns.result]
  have harena : (l.serve r).state.heap.arena = h' := by
    rw [(transparent hp).heap r hstrict, (l.heap.serve_eq r.call).2, hruns.arena]
  have hsettle : r.settle live answer = r.call.settle live answer := if_neg hstrict
  refine ⟨answer, hresult, clear_of_answer hp hresult, ?_, ?_, ?_, ?_⟩
  · rw [harena, hsettle]
    exact ⟨blocks', hh'.sound.formed, hh'.leases⟩
  · rintro p hanswer layout hlayout hproper
    obtain rfl := Option.mem_def.mp hanswer
    have hgiven : ⟨p, r.call.size⟩ ∈ r.call.settle live (some p) := List.mem_cons_self
    have halign : layout.align ≤ maxAlign :=
      Nat.le_of_not_lt fun hlt => hstrict ⟨layout, hlayout, hlt⟩
    exact (hproper.align_dvd halign).trans (hh'.payload_dvd hgiven)
  · rintro p hanswer
    obtain rfl := Option.mem_def.mp hanswer
    rw [harena, hsettle]
    exact hh'.owns List.mem_cons_self
  · rintro p layout size rfl hsize rfl
    have hstay : (Call.resize (some p) size).settle live none = live :=
      Call.settle_refused (c := .resize _ _) (Nat.pos_of_ne_zero hsize) live
    obtain ⟨lease, hl, rfl⟩ := List.mem_map.mp (hvalid p rfl)
    have hlive : (Call.resize (some lease.payload) size).kept live none = live := hstay
    unfold Request.call at hspares
    rw [hlive] at hspares
    rw [harena, hsettle]
    exact ⟨hstay, fun a => hh.unmoved hl hspares⟩

/-- A locked heap, whatever its arena holds and whatever it is asked: as long as nothing has faulted
each request is the heap's own call, or is refused for its alignment, and once something has faulted
there is no answer and no effect any more. Over an exact provider, a session of a locked heap never
faults, and what it is answered is aligned, its own, and left alone by a resize that fails. -/
theorem contract {P : σ → Prop} (hP : Segment.Exact P) (hsegment : P segment) :
    (∀ (h : Heap σ) (rs : List Request),
      ((∀ o ∈ (ofHeap h).trace rs, ∃ answer, o.result = .ok answer) →
        ((ofHeap h).after rs).Transparent) ∧
      ((∃ o ∈ (ofHeap h).trace rs, ∃ fault, o.result = .error fault) →
        ((ofHeap h).after rs).Dead)) ∧
    ∀ (memory : Memory) (config : Config) (l : Locked σ) (live : List Lease),
      Reach segment memory config l live → ∀ r : Request, r.call.Valid live →
        ∃ answer, (l.serve r).result = .ok answer ∧ Kept l (l.serve r).state r live answer := by
  refine ⟨fun h rs => ⟨fun hanswered => ?_, fun hfaulted => ?_⟩, fun _ _ l live hr r hc => ?_⟩
  · exact transparent (after_clear rfl hanswered)
  · exact dead (after_poisoned hfaulted)
  · exact hr.kept hP hsegment hc

/-- A reservation's heap is locked while it is whole, and once more after its first header was
overwritten. -/
theorem contract_played : ∃ (h : Heap (Reservation .common)) (p : Nat),
    Heap.session (⟨0x100000, 65536, 0, 4096⟩ : Reservation .common) Reservation.blank Config.standard
      [.allocate 100] = some (h, [⟨0x100028, 100⟩]) ∧
    ((ofHeap h).serve (.allocateZeroed ⟨24, 8⟩)).result = .ok (some p) ∧ 8 ∣ p ∧
    ((ofHeap h).serve (.allocateZeroed ⟨24, 8⟩)).state.heap.arena.Owns
      [⟨p, 24⟩, ⟨0x100028, 100⟩] p 24 ∧
    ((ofHeap ⟨h.arena.writeWord 0x100020 2⟩).after [.free (some 0x100028)]).Dead := by
  have hplayed : (Heap.session (⟨0x100000, 65536, 0, 4096⟩ : Reservation .common) Reservation.blank
      Config.standard [.allocate 100]).map (fun s =>
        (s.2, ((ofHeap s.1).serve (.allocateZeroed ⟨24, 8⟩)).result.toOption,
          ((ofHeap ⟨s.1.arena.writeWord 0x100020 2⟩).serve
            (.free (some 0x100028))).result.toOption)) =
      some ([⟨0x100028, 100⟩], some (some 0x1000a8), none) := by
    decide +kernel
  obtain ⟨⟨h, live⟩, hs, hfacts⟩ := Option.map_eq_some_iff.mp hplayed
  obtain ⟨rfl, hfacts⟩ := Prod.mk.inj hfacts
  obtain ⟨hgiven, hfault⟩ := Prod.mk.inj hfacts
  have hsegment : (⟨0x100000, 65536, 0, 4096⟩ : Reservation .common).Paged :=
    Reservation.paged_common (by decide)
  obtain ⟨hruns, hsession⟩ := contract Reservation.exact_paged hsegment
  obtain ⟨answer, hanswer, hkept⟩ := hsession _ _ _ _ (.lock (.of_session hs))
    (.allocateZeroed ⟨24, 8⟩) nofun
  obtain rfl := Except.ok.inj (hanswer.symm.trans (ok_of_toOption hgiven))
  refine ⟨h, 0x1000a8, hs, hanswer, hkept.aligned _ rfl ⟨24, 8⟩ rfl (by decide), ?_, ?_⟩
  · exact hkept.owned _ rfl
  · refine (hruns _ _).2 ⟨_, List.mem_cons_self, ?_⟩
    exact error_of_toOption hfault

end Locked
end BlockHeap
