import BlockHeap.Proofs.Refree
import BlockHeap.Proofs.Session

/-!
# Resizing without a block

What resizing a payload does when the client does not hold its block. Nothing asks whether the block
is allocated. Cutting it down allocates what is left of it, moving it leaves a free block where it is,
and a block that has the right size already stays free.
-/

namespace BlockHeap

variable {σ : Type} [Segment σ]

namespace Arena

variable {h h₁ h' : Arena σ} {payload old n b : Nat} {r : Option Nat}

/-- How moving a payload ends, whatever is there. -/
lemma move_cases (hm : Action.Yields (move payload old n) h r h') :
    (r = none ∧ Action.Yields (allocate n) h none h') ∨
      ∃ t h₁, r = some t ∧ Action.Yields (allocate n) h (some t) h₁ ∧ 2 * wordSize ≤ old ∧
        Action.Yields (free (some payload))
          (h₁.withMemory (h₁.memory.copy payload t (min (old - 2 * wordSize) n))) () h' := by
  unfold move at hm
  obtain ⟨found, h₁, ha, hm⟩ := hm.of_bind
  rcases found with _ | t
  · obtain ⟨rfl, rfl⟩ := hm.unique ⟨rfl, rfl⟩
    exact Or.inl ⟨rfl, ha⟩
  · obtain ⟨kept, h₂, ⟨hkept, rfl⟩, hm⟩ := hm.of_bind
    obtain ⟨hold, rfl⟩ := Word.sub_ok hkept
    obtain ⟨_, h₃, hcopy, hm⟩ := hm.of_bind
    obtain ⟨_, rfl⟩ := hcopy.unique ⟨rfl, rfl⟩
    obtain ⟨_, h₄, hfree, hm⟩ := hm.of_bind
    obtain ⟨rfl, rfl⟩ := hm.unique ⟨rfl, rfl⟩
    exact Or.inr ⟨t, h₁, rfl, ha, hold, hfree⟩

end Arena

namespace Held

open Arena (allocate move resize free)

variable {P : σ → Prop} {h h₁ h' : Arena σ} {live : List Lease} {pre post blocks : List Piece}
  {payload n k t : Nat} {r : Option Nat}

/-- What is copied into a payload that is held touches no other block. -/
lemma filled {count : Nat} (hh : Held P h (⟨t, n⟩ :: live) blocks) (source : Nat)
    (hcount : count ≤ n) :
    Held P (h.withMemory (h.memory.copy source t count)) (⟨t, n⟩ :: live) blocks := by
  have hroom := Block.le_leastSize n
  refine hh.write List.mem_cons_self (fun i => h.memory.read (i + source)) (Nat.le_refl t) ?_
  simp only [Lease.block]
  omega

/-- A request is served to whoever asks. -/
lemma allocated (hP : Segment.Exact P) (hh : Held P h live blocks)
    (ha : Action.Yields (allocate n) h r h₁) :
    ∃ blocks₁, Held P h₁ (Lease.given r n ++ live) blocks₁ := by
  obtain ⟨_, _, _, blocks₁, ht, _⟩ := Arena.allocate_trades hP hh.sound n
  obtain ⟨hruns, hh₁, _, _⟩ := hh.traded [] live ht (List.Perm.refl _)
  obtain ⟨rfl, rfl⟩ := ha.unique hruns.yields
  exact ⟨blocks₁, hh₁⟩

end Held
end BlockHeap
