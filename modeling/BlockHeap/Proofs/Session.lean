import BlockHeap.Arena.Client
import BlockHeap.Proofs.Check
import BlockHeap.Proofs.Create

/-!
# Sessions

In a session a client calls the operations of a heap, with no pointer or with one that it holds, and
writes into the payloads that it holds. `Held` ties what the client holds to the chain: the leases
are exactly the allocated blocks. Every step of a session keeps it.
-/

namespace BlockHeap

/-- A payload that the client holds, with the size that it last asked for. -/
structure Lease where
  payload : Nat
  size : Nat
deriving DecidableEq, Repr

/-- The block that a payload of this size has, by address and size. -/
def Lease.block (l : Lease) : Nat × Nat :=
  (l.payload - wordSize, Block.leastSize l.size)

lemma Lease.block_eq {l : Lease} {a : Nat} (h : l.payload = a + wordSize) :
    l.block = (a, Block.leastSize l.size) := by
  unfold Lease.block
  rw [h, Nat.add_sub_cancel]

/-- The leases that an answer to a request for `size` bytes gives. -/
def Lease.given (answer : Option Nat) (size : Nat) : List Lease :=
  answer.toList.map fun payload => ⟨payload, size⟩

lemma Lease.given_blocks (answer : Option Nat) (size : Nat) :
    (Lease.given answer size).map Lease.block = Block.handed answer size := by
  cases answer <;> rfl

inductive Call where
  | allocate (size : Nat)
  | allocateZeroed (count size : Nat)
  | resize (payload : Option Nat) (size : Nat)
  | free (payload : Option Nat)
deriving DecidableEq, Repr

namespace Call

def pointer : Call → Option Nat
  | resize payload _ => payload
  | free payload => payload
  | _ => none

def size : Call → Nat
  | allocate size => size
  | allocateZeroed count size => count * size
  | resize _ size => size
  | free _ => 0

/-- The call's pointer is null or held. -/
def Valid (live : List Lease) (c : Call) : Prop :=
  ∀ p ∈ c.pointer, p ∈ live.map Lease.payload

instance (live : List Lease) (c : Call) : Decidable (c.Valid live) :=
  inferInstanceAs (Decidable (∀ p ∈ c.pointer, p ∈ live.map Lease.payload))

/-- Whether the call takes its pointer away, with this answer. -/
def takes (answer : Option Nat) : Call → Bool
  | resize _ size => size = 0 || answer.isSome
  | _ => true

/-- The leases that the call ends. -/
def ended (live : List Lease) (answer : Option Nat) (c : Call) : List Lease :=
  if c.takes answer then live.filter fun l => some l.payload = c.pointer else []

/-- The leases that the call leaves as they are. -/
def kept (live : List Lease) (answer : Option Nat) (c : Call) : List Lease :=
  if c.takes answer then live.filter fun l => some l.payload ≠ c.pointer else live

/-- The leases after the call. -/
def settle (live : List Lease) (answer : Option Nat) (c : Call) : List Lease :=
  Lease.given answer c.size ++ c.kept live answer

lemma ended_kept (live : List Lease) (answer : Option Nat) (c : Call) :
    (c.ended live answer ++ c.kept live answer).Perm live := by
  unfold ended kept
  split
  next =>
    have hsplit := List.filter_append_perm (fun l : Lease => decide (some l.payload = c.pointer)) live
    simpa using hsplit
  next => exact List.Perm.refl _

lemma ended_of_null {live : List Lease} {answer : Option Nat} {c : Call} (h : c.pointer = none) :
    c.ended live answer = [] := by
  unfold ended
  rw [h]
  simp

lemma valid_free {p : Nat} {live : List Lease} (hp : p ∈ live.map Lease.payload) :
    (free (some p)).Valid live :=
  fun q hq => by rwa [← Option.some.inj hq]

variable {σ : Type} [Segment σ]

def action : Call → Action σ (Option Nat)
  | allocate size => Arena.allocate size
  | allocateZeroed count size => Arena.allocateZeroed count size
  | resize payload size => Arena.resize payload size
  | free payload => do
    Arena.free payload
    return none

/-- How a call on an arena with these blocks ends. -/
inductive Ends (h : Arena σ) (blocks : List Piece) (h' : Arena σ) :
    Call → Option Nat → List Piece → List Event → Prop where
  | allocated {n : Nat} {r : Option Nat} {blocks' : List Piece} {asked : List Event}
      (step : Arena.Allocated h n blocks h' r blocks' asked) :
      Ends h blocks h' (.allocate n) r blocks' asked
  | zeroed {count size : Nat} {r : Option Nat} {blocks' : List Piece} {asked : List Event}
      (step : Arena.Zeroed h count size blocks h' r blocks' asked) :
      Ends h blocks h' (.allocateZeroed count size) r blocks' asked
  | nothing (arena : h' = h) : Ends h blocks h' (.free none) none blocks []
  | freed {pre post blocks' : List Piece} {size : Nat} {asked : List Event}
      (chain : blocks = pre ++ ⟨size, .allocated⟩ :: post)
      (step : Arena.Trimmed h (restTail pre) (joined pre size post) (restHead post) h' blocks'
        asked) :
      Ends h blocks h' (.free (some (h.start + span pre + wordSize))) none blocks' asked
  | resizedNull {n : Nat} {r : Option Nat} {blocks' : List Piece} {asked : List Event}
      (step : Arena.Allocated h n blocks h' r blocks' asked) :
      Ends h blocks h' (.resize none n) r blocks' asked
  | resizedZero {pre post blocks' : List Piece} {size : Nat} {asked : List Event}
      (chain : blocks = pre ++ ⟨size, .allocated⟩ :: post)
      (step : Arena.Trimmed h (restTail pre) (joined pre size post) (restHead post) h' blocks'
        asked) :
      Ends h blocks h' (.resize (some (h.start + span pre + wordSize)) 0) none blocks' asked
  | resized {pre post blocks' : List Piece} {size n : Nat} {r : Option Nat} {asked : List Event}
      (chain : blocks = pre ++ ⟨size, .allocated⟩ :: post) (pos : 0 < n)
      (step : Arena.Resized h pre size post n h' r blocks' asked) :
      Ends h blocks h' (.resize (some (h.start + span pre + wordSize)) n) r blocks' asked

end Call

variable {σ : Type} [Segment σ]

omit [Segment σ] in
lemma Heap.run_eq (h : Heap σ) {α : Type} (m : Action σ α) :
    (h.run m).result = (m h.arena).result ∧ (h.run m).state = ⟨(m h.arena).arena⟩ :=
  ⟨rfl, rfl⟩

/-- What the heap answers to a call. -/
def Heap.serve (h : Heap σ) : Call → Outcome (Heap σ) (Option Nat)
  | .allocate size => h.allocate size
  | .allocateZeroed count size => h.allocateZeroed count size
  | .resize payload size => h.resize payload size
  | .free payload =>
    let outcome := h.free payload
    ⟨outcome.result.map fun _ => none, outcome.state, outcome.log⟩

lemma Heap.serve_eq (h : Heap σ) (c : Call) :
    (h.serve c).result = (c.action h.arena).result ∧
      (h.serve c).state = ⟨(c.action h.arena).arena⟩ := by
  cases c with
  | allocate => exact h.run_eq _
  | allocateZeroed => exact h.run_eq _
  | resize => exact h.run_eq _
  | free payload =>
    rcases hfree : Arena.free payload h.arena with ⟨fault | x, arena, events⟩
    · have haction : (Call.free payload).action h.arena = ⟨.error fault, arena, events⟩ :=
        Action.bind_of_error hfree
      rw [haction]
      simp only [serve, free, run, hfree]
      exact ⟨rfl, trivial⟩
    · have haction : (Call.free payload).action h.arena = ⟨.ok none, arena, events ++ []⟩ :=
        Action.bind_of_ok hfree
      rw [haction]
      simp only [serve, free, run, hfree]
      exact ⟨rfl, trivial⟩

lemma Heap.serve_yields {h : Heap σ} {c : Call} {answer : Option Nat} {h' : Arena σ}
    (hc : Action.Yields c.action h.arena answer h') :
    (h.serve c).result = .ok answer ∧ (h.serve c).state = ⟨h'⟩ := by
  obtain ⟨hresult, hstate⟩ := h.serve_eq c
  rw [hresult, hstate, hc.1, hc.2]
  exact ⟨rfl, rfl⟩

lemma Heap.serve_log (h : Heap σ) (c : Call) :
    (h.serve c).log = Event.records (c.action h.arena).events := by
  cases c with
  | allocate => rfl
  | allocateZeroed => rfl
  | resize => rfl
  | free payload =>
    rcases hfree : Arena.free payload h.arena with ⟨fault | x, arena, events⟩
    · have haction : (Call.free payload).action h.arena = ⟨.error fault, arena, events⟩ :=
        Action.bind_of_error hfree
      rw [haction]
      simp only [serve, free, run, hfree]
    · have haction : (Call.free payload).action h.arena = ⟨.ok none, arena, events ++ []⟩ :=
        Action.bind_of_ok hfree
      rw [haction]
      simp only [serve, free, run, hfree, List.append_nil]

/-- The bytes of a payload that its owner may use, as the header has it. -/
def Arena.usable (h : Arena σ) (payload : Nat) : Nat :=
  Tag.size ⟨h.memory.word (payload - wordSize)⟩ - 2 * wordSize

/-- What the client holds are the allocated blocks of a sound arena. -/
structure Held (P : σ → Prop) (h : Arena σ) (live : List Lease) (blocks : List Piece) : Prop where
  sound : h.Sound P blocks
  leases : (live.map Lease.block).Perm (taken h.start blocks)
  word_le : ∀ l ∈ live, wordSize ≤ l.payload

namespace Held

variable {P : σ → Prop} {h : Arena σ} {live : List Lease} {blocks : List Piece} {l l' : Lease}

lemma mem_taken (hh : Held P h live blocks) (hl : l ∈ live) : l.block ∈ taken h.start blocks :=
  hh.leases.mem_iff.mp (List.mem_map_of_mem hl)

lemma split (hh : Held P h live blocks) (hl : l ∈ live) :
    ∃ pre post, blocks = pre ++ ⟨Block.leastSize l.size, .allocated⟩ :: post ∧
      l.payload = h.start + span pre + wordSize := by
  obtain ⟨pre, post, hblocks, hat⟩ := mem_taken_iff.mp (hh.mem_taken hl)
  have hle := hh.word_le l hl
  exact ⟨pre, post, hblocks, by simp only [wordSize] at *; omega⟩

lemma payload_nodup (hh : Held P h live blocks) : (live.map Lease.payload).Nodup := by
  have hnodup := taken_nodup hh.sound.chained.tiles
  rw [← (hh.leases.map Prod.fst).nodup_iff, List.map_map] at hnodup
  refine List.pairwise_map.mpr ((List.pairwise_map.mp hnodup).imp ?_)
  intro l l' hne heq
  exact hne (by simp only [Function.comp, Lease.block, heq])

lemma filter_payload (hh : Held P h live blocks) (hl : l ∈ live) :
    live.filter (fun l' => some l'.payload = some l.payload) = [l] := by
  obtain ⟨pre, post, rfl⟩ := List.append_of_mem hl
  have hnodup := hh.payload_nodup
  simp only [List.map_append, List.map_cons, List.nodup_append, List.nodup_cons, List.mem_map,
    List.mem_cons] at hnodup
  obtain ⟨_, ⟨hpost, _⟩, hpre⟩ := hnodup
  have h1 : pre.filter (fun l' => some l'.payload = some l.payload) = [] := by
    refine List.filter_eq_nil_iff.mpr fun l' hl' => ?_
    have hne := hpre l'.payload ⟨l', hl', rfl⟩ l.payload (Or.inl rfl)
    simpa using hne
  have h2 : post.filter (fun l' => some l'.payload = some l.payload) = [] := by
    refine List.filter_eq_nil_iff.mpr fun l' hl' => ?_
    simp only [Option.some.injEq, decide_eq_true_eq]
    intro heq
    exact hpost ⟨l', hl', heq⟩
  rw [List.filter_append, List.filter_cons_of_pos (by simp), h1, h2]
  rfl

lemma ended_eq (hh : Held P h live blocks) (hl : l ∈ live) {c : Call} {r : Option Nat}
    (hpointer : c.pointer = some l.payload) (htakes : c.takes r = true) :
    c.ended live r = [l] := by
  unfold Call.ended
  rw [if_pos htakes, hpointer]
  exact hh.filter_payload hl

/-- A call of a session runs to its end and trades the leases that it ends for the ones it gives. -/
theorem call_trades (hP : Segment.Exact P) (hh : Held P h live blocks) {c : Call}
    (hc : c.Valid live) :
    ∃ r h' asked blocks', Arena.Trades P c.action h blocks r h' asked blocks'
        ((c.ended live r).map Lease.block) (Block.handed r c.size) ∧
      c.Ends h blocks h' r blocks' asked := by
  cases c with
  | allocate size =>
    obtain ⟨r, h', asked, blocks', ht, ha⟩ := Arena.allocate_trades hP hh.sound size
    exact ⟨r, h', asked, blocks', by rwa [Call.ended_of_null rfl], .allocated ha⟩
  | allocateZeroed count size =>
    obtain ⟨r, h', asked, blocks', ht, hz⟩ := Arena.allocateZeroed_trades hP hh.sound count size
    exact ⟨r, h', asked, blocks', by rwa [Call.ended_of_null rfl], .zeroed hz⟩
  | free payload =>
    cases payload with
    | none =>
      refine ⟨none, h, [], blocks, ?_, .nothing rfl⟩
      rw [Call.ended_of_null rfl]
      exact (Arena.free_null_trades hh.sound).andPure (Action.Runs.pure _ _)
    | some p =>
      obtain ⟨l, hl, rfl⟩ := List.mem_map.mp (hc p rfl)
      obtain ⟨pre, post, rfl, hat⟩ := hh.split hl
      obtain ⟨h', asked, blocks', ht, htrimmed⟩ := Arena.free_trades hP hh.sound
      refine ⟨none, h', asked, blocks', ?_, by rw [hat]; exact .freed rfl htrimmed⟩
      rw [hh.ended_eq hl rfl rfl, List.map_singleton, Lease.block_eq hat]
      rw [← hat] at ht
      exact ht.andPure (Action.Runs.pure _ _)
  | resize payload size =>
    cases payload with
    | none =>
      obtain ⟨r, h', asked, blocks', ht, ha⟩ := Arena.resize_null_trades hP hh.sound size
      exact ⟨r, h', asked, blocks', by rwa [Call.ended_of_null rfl], .resizedNull ha⟩
    | some p =>
      obtain ⟨l, hl, rfl⟩ := List.mem_map.mp (hc p rfl)
      obtain ⟨pre, post, rfl, hat⟩ := hh.split hl
      by_cases hzero : size = 0
      · subst hzero
        obtain ⟨h', asked, blocks', ht, htrimmed⟩ := Arena.resize_zero_trades hP hh.sound
        refine ⟨none, h', asked, blocks', ?_, by rw [hat]; exact .resizedZero rfl htrimmed⟩
        rw [hh.ended_eq hl rfl rfl, List.map_singleton, Lease.block_eq hat]
        rwa [← hat] at ht
      · have hpos := Nat.pos_of_ne_zero hzero
        obtain ⟨r, h', asked, blocks', ht, hresized⟩ := Arena.resize_trades hP hh.sound hpos
        refine ⟨r, h', asked, blocks', ?_, by rw [hat]; exact .resized rfl hpos hresized⟩
        rw [← hat] at ht
        cases r with
        | none =>
          have hnothing : (Call.resize (some l.payload) size).ended live none = [] := by
            unfold Call.ended Call.takes
            rw [if_neg (by simpa using hzero)]
          rw [hnothing]
          exact ht
        | some q =>
          rw [hh.ended_eq hl rfl (by simp [Call.takes]), List.map_singleton, Lease.block_eq hat]
          exact ht

/-- What a call does to an arena whose allocated blocks the client holds. -/
structure Served (P : σ → Prop) (h h' : Arena σ) (live' kept : List Lease) : Prop where
  held : ∃ blocks, Held P h' live' blocks
  akin : h.Akin h'
  spares : h.Spares h' (kept.map Lease.block)

/-- The blocks of some leases are traded for the block that is handed out, if one is. -/
lemma traded {α : Type} {m : Action σ α} {x : α} {h' : Arena σ} {r : Option Nat} {n : Nat}
    {asked : List Event} {blocks' : List Piece} (hh : Held P h live blocks) (gone kept : List Lease)
    (ht : Arena.Trades P m h blocks x h' asked blocks' (gone.map Lease.block) (Block.handed r n))
    (hsplit : (gone ++ kept).Perm live) :
    Action.Runs m h x h' asked ∧ Held P h' (Lease.given r n ++ kept) blocks' ∧ h.Akin h' ∧
      h.Spares h' (kept.map Lease.block) := by
  obtain ⟨rest, hl, hlost, hgained⟩ := ht
  have hleases := (hsplit.map Lease.block).trans hh.leases
  rw [List.map_append] at hleases
  have hkept : (kept.map Lease.block).Perm rest :=
    (List.perm_append_left_iff _).mp (hleases.trans hlost)
  rw [← hl.akin.start] at hgained
  refine ⟨hl.runs, ⟨hl.sound, ?_, ?_⟩, hl.akin, hl.spares.mono fun b hb => hkept.mem_iff.mp hb⟩
  · rw [List.map_append, Lease.given_blocks]
    exact (hkept.append_left _).trans hgained.symm
  · intro l hmem
    rcases List.mem_append.mp hmem with hgiven | hold
    · cases r with
      | none => exact absurd hgiven List.not_mem_nil
      | some q =>
        obtain rfl := List.mem_singleton.mp hgiven
        exact (hl.sound.le_handed hgained).1
    · exact hh.word_le l (hsplit.mem_iff.mp (List.mem_append_right _ hold))

theorem serve (hP : Segment.Exact P) (hh : Held P h live blocks) {c : Call} (hc : c.Valid live) :
    ∃ r h' asked, Action.Runs c.action h r h' asked ∧
      Served P h h' (c.settle live r) (c.kept live r) := by
  obtain ⟨r, h', asked, blocks', ht, _⟩ := hh.call_trades hP hc
  obtain ⟨hruns, hh', hakin, hspares⟩ := hh.traded _ _ ht (c.ended_kept live r)
  exact ⟨r, h', asked, hruns, ⟨blocks', hh'⟩, hakin, hspares⟩

/-- The step that a call of a session takes. -/
lemma served {h : Heap σ} {c : Call} {answer : Option Nat} (hP : Segment.Exact P)
    (hh : Held P h.arena live blocks) (hc : c.Valid live) (hanswer : (h.serve c).result = .ok answer) :
    Served P h.arena (h.serve c).state.arena (c.settle live answer) (c.kept live answer) := by
  obtain ⟨r, h', asked, hruns, hserved⟩ := hh.serve hP hc
  obtain ⟨hresult, hstate⟩ := h.serve_eq c
  obtain rfl := Except.ok.inj (hruns.result.symm.trans (hresult.symm.trans hanswer))
  rw [hstate, hruns.arena]
  exact hserved

/-- How the step that a call of a session takes ends. -/
lemma served_ends {h : Heap σ} {c : Call} {answer : Option Nat} (hP : Segment.Exact P)
    (hh : Held P h.arena live blocks) (hc : c.Valid live) (hanswer : (h.serve c).result = .ok answer) :
    ∃ asked blocks', Action.Runs c.action h.arena answer (h.serve c).state.arena asked ∧
      Held P (h.serve c).state.arena (c.settle live answer) blocks' ∧
      h.arena.Akin (h.serve c).state.arena ∧
      c.Ends h.arena blocks (h.serve c).state.arena answer blocks' asked := by
  obtain ⟨r, h', asked, blocks', ht, hends⟩ := hh.call_trades hP hc
  obtain ⟨hruns, hh', hakin, _⟩ := hh.traded _ _ ht (c.ended_kept live r)
  obtain ⟨hresult, hstate⟩ := h.serve_eq c
  obtain rfl := Except.ok.inj (hruns.result.symm.trans (hresult.symm.trans hanswer))
  rw [hstate, hruns.arena]
  exact ⟨asked, blocks', hruns, hh', hakin, hends⟩

/-- Freeing answers nothing. -/
lemma free_answers {h : Heap σ} {payload : Option Nat} (hP : Segment.Exact P)
    (hh : Held P h.arena live blocks) (hc : (Call.free payload).Valid live) :
    (h.serve (.free payload)).result = .ok none := by
  obtain ⟨r, h', asked, blocks', ⟨_, hl, _, _⟩, hends⟩ := hh.call_trades hP hc
  obtain rfl : r = none := by
    cases hends <;> rfl
  exact (Heap.serve_yields hl.runs.yields).1

/-- What a client writes into one of its payloads is none of the chain's business. -/
theorem write (hh : Held P h live blocks) (hl : l ∈ live) {a count : Nat} (f : Nat → UInt8)
    (hlow : l.payload ≤ a) (hhigh : a + count + 2 * wordSize ≤ l.payload + l.block.2) :
    Held P (h.write a count f) live blocks := by
  have hle := hh.word_le l hl
  have hwrite := hh.sound.write (b := l.block.1) (k := l.block.2) (hh.mem_taken hl)
    (m := h.memory.tabulate a (a + count) fun b => f (b - a)) ?_
  · exact ⟨hwrite.1, hh.leases, hh.word_le⟩
  · intro b hb
    rw [Memory.read_tabulate, if_neg]
    simp only [Lease.block, wordSize] at *
    omega

lemma word_header (hh : Held P h live blocks) (hl : l ∈ live) :
    Tag.size ⟨h.memory.word (l.payload - wordSize)⟩ = Block.leastSize l.size := by
  obtain ⟨pre, post, rfl, hat⟩ := hh.split hl
  rw [hat, Nat.add_sub_cancel, hh.sound.chained.word_head, hh.sound.toLaid.whole.tag_size]

lemma usable_eq (hh : Held P h live blocks) (hl : l ∈ live) :
    h.usable l.payload + 2 * wordSize = l.block.2 := by
  have hle := (taken_whole hh.sound.chained.tiles (hh.mem_taken hl)).le
  unfold Arena.usable
  rw [hh.word_header hl]
  simp only [Lease.block, minBlockSize, wordSize] at *
  omega

/-- The step that a client takes when it writes. -/
lemma written (hh : Held P h live blocks) (hl : l ∈ live) {a count : Nat} (f : Nat → UInt8)
    (hlow : l.payload ≤ a) (hhigh : a + count ≤ l.payload + h.usable l.payload) :
    Held P (h.write a count f) live blocks := by
  have husable := hh.usable_eq hl
  exact hh.write hl f hlow (by omega)

end Held

/-- The heaps that a session leads to, with the leases that are live then. -/
inductive Reach (segment : σ) (memory : Memory) (config : Config) : Heap σ → List Lease → Prop where
  | create {h : Heap σ} {log : List Record}
      (made : Heap.create segment memory config = .ok (h, log)) : Reach segment memory config h []
  | serve {h : Heap σ} {live : List Lease} {answer : Option Nat} (c : Call)
      (before : Reach segment memory config h live) (valid : c.Valid live)
      (served : (h.serve c).result = .ok answer) :
      Reach segment memory config (h.serve c).state (c.settle live answer)
  | write {h : Heap σ} {live : List Lease} {l : Lease} (a count : Nat) (f : Nat → UInt8)
      (before : Reach segment memory config h live) (held : l ∈ live) (low : l.payload ≤ a)
      (high : a + count ≤ l.payload + h.arena.usable l.payload) :
      Reach segment memory config { h with arena := h.arena.write a count f } live

variable {P : σ → Prop} {segment : σ} {memory : Memory} {config : Config} {h : Heap σ}
  {live : List Lease}

/-- What is made as a heap is made as an arena. -/
lemma Heap.create_ok {log : List Record} (hc : Heap.create segment memory config = .ok (h, log)) :
    ∃ events, Arena.create segment memory config = .ok (h.arena, events) := by
  unfold Heap.create at hc
  obtain ⟨⟨arena, events⟩, hmade, hc⟩ := ok_of_bind hc
  obtain ⟨rfl, _⟩ := Prod.mk.inj (Except.ok.inj hc)
  exact ⟨events, hmade⟩

lemma Heap.create_made_iff :
    (∃ made, Heap.create segment memory config = .ok made) ↔
      ∃ made, Arena.create segment memory config = .ok made := by
  constructor
  · rintro ⟨⟨h, log⟩, hc⟩
    obtain ⟨events, hmade⟩ := Heap.create_ok hc
    exact ⟨_, hmade⟩
  · rintro ⟨⟨arena, events⟩, hmade⟩
    unfold Heap.create
    rw [hmade]
    exact ⟨_, rfl⟩

/-- A heap that was made over an exact provider is held by nobody yet. -/
lemma create_held {log : List Record} (hP : Segment.Exact P) (hsegment : P segment)
    (hc : Heap.create segment memory config = .ok (h, log)) : ∃ blocks, Held P h.arena [] blocks := by
  obtain ⟨events, hmade⟩ := Heap.create_ok hc
  obtain ⟨hsound, _⟩ := Arena.create_sound hP.loose hsegment hmade
  exact ⟨_, hsound, List.Perm.refl _, by simp⟩

/-- At every point of a session, the leases are the allocated blocks of a sound arena. -/
theorem Reach.held (hP : Segment.Exact P) (hsegment : P segment)
    (hr : Reach segment memory config h live) : ∃ blocks, Held P h.arena live blocks := by
  induction hr with
  | create made => exact create_held hP hsegment made
  | serve c _ valid served ih =>
    obtain ⟨blocks, hh⟩ := ih
    exact (hh.served hP valid served).held
  | write a count f _ mem low high ih =>
    obtain ⟨blocks, hh⟩ := ih
    exact ⟨blocks, hh.written mem f low high⟩

/-- Every point of a session has the start, the floor and the settings of the heap that was made. -/
theorem Reach.made (hP : Segment.Exact P) (hsegment : P segment)
    (hr : Reach segment memory config h live) :
    ∃ h₀ log, Heap.create segment memory config = .ok (h₀, log) ∧ h₀.arena.Akin h.arena := by
  induction hr with
  | create made => exact ⟨_, _, made, Arena.Akin.refl _⟩
  | serve c before valid served ih =>
    obtain ⟨h₀, log, hmade, hakin⟩ := ih
    obtain ⟨blocks, hh⟩ := before.held hP hsegment
    exact ⟨h₀, log, hmade, hakin.trans (hh.served hP valid served).akin⟩
  | write a count f _ _ _ _ ih =>
    obtain ⟨h₀, log, hmade, hakin⟩ := ih
    exact ⟨h₀, log, hmade, hakin.trans ⟨rfl, rfl, rfl, rfl, rfl⟩⟩

/-- No operation changes the settings. -/
lemma Reach.settings (hP : Segment.Exact P) (hsegment : P segment)
    (hr : Reach segment memory config h live) :
    h.arena.placement.policy = config.policy ∧ h.arena.chunkSize = config.chunkSize ∧
      h.arena.shrinkThreshold = config.shrinkThreshold := by
  obtain ⟨h₀, log, hmade, hakin⟩ := hr.made hP hsegment
  obtain ⟨events, hcreated⟩ := Heap.create_ok hmade
  rw [hakin.policy, hakin.chunkSize, hakin.shrinkThreshold]
  exact Arena.create_settings hP.loose hsegment hcreated

/-- The heap and the leases after some calls, if all are within the rules and answered. -/
def Heap.play (h : Heap σ) (live : List Lease) : List Call → Option (Heap σ × List Lease)
  | [] => some (h, live)
  | c :: rest =>
    if c.Valid live then
      match (h.serve c).result with
      | .ok answer => (h.serve c).state.play (c.settle live answer) rest
      | .error _ => none
    else none

/-- The heap and the leases after some calls of a new session. -/
def Heap.session (segment : σ) (memory : Memory) (config : Config) (calls : List Call) :
    Option (Heap σ × List Lease) :=
  match Heap.create segment memory config with
  | .ok (h, _) => h.play [] calls
  | .error _ => none

lemma Reach.play {h' : Heap σ} {live' : List Lease} {calls : List Call}
    (hr : Reach segment memory config h live) (hp : h.play live calls = some (h', live')) :
    Reach segment memory config h' live' := by
  induction calls generalizing h live with
  | nil =>
    obtain ⟨rfl, rfl⟩ := Prod.mk.inj (Option.some.inj hp)
    exact hr
  | cons c rest ih =>
    unfold Heap.play at hp
    split at hp
    next hvalid =>
      split at hp
      next answer hanswer => exact ih (.serve c hr hvalid hanswer) hp
      next => exact absurd hp (by simp)
    next => exact absurd hp (by simp)

theorem Reach.of_session {calls : List Call}
    (hs : Heap.session segment memory config calls = some (h, live)) :
    Reach segment memory config h live := by
  unfold Heap.session at hs
  split at hs
  next made => exact (Reach.create made).play hs
  next => exact absurd hs (by simp)

end BlockHeap
