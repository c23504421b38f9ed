import BlindSchnorr.Proofs.Curve.Laws

/-!
# Values that stand for the elements of a group

A backend may represent the elements of an abelian group as it likes. If its points are the
values that stand for one, no two of them for the same, and its operations follow those of the
group, then the laws of the group are its own.
-/
namespace BlindSchnorr.CurveGroup

/-- A relation by which the points of a backend stand for the elements of a group. Scalars are
reduced modulo the order of the backend, whatever that does to an element. -/
structure Represented (C : CurveGroup) {G : Type} [AddCommGroup G] (Rep : C.Point → G → Prop) : Prop where
  isPoint_iff : ∀ {P}, C.IsPoint P ↔ ∃ Q, Rep P Q
  injective : ∀ {P P' Q}, Rep P Q → Rep P' Q → P = P'
  identity : Rep C.identity 0
  add : ∀ {P P' Q Q'}, Rep P Q → Rep P' Q' → Rep (C.add P P') (Q + Q')
  negate : ∀ {P Q}, Rep P Q → Rep (C.negate P) (-Q)
  scalarMul : ∀ {P Q}, Rep P Q → ∀ k, Rep (C.scalarMul k P) ((k % C.order) • Q)

namespace Represented

variable {C : CurveGroup} {G : Type} [AddCommGroup G] {Rep : C.Point → G → Prop} {P P' P'' : C.Point}

theorem isPoint (h : C.Represented Rep) {Q : G} (hP : Rep P Q) : C.IsPoint P := h.isPoint_iff.2 ⟨Q, hP⟩

theorem isPoint_add (h : C.Represented Rep) (hP : C.IsPoint P) (hP' : C.IsPoint P') :
    C.IsPoint (C.add P P') := by
  obtain ⟨Q, hQ⟩ := h.isPoint_iff.1 hP
  obtain ⟨Q', hQ'⟩ := h.isPoint_iff.1 hP'
  exact h.isPoint (h.add hQ hQ')

theorem isPoint_negate (h : C.Represented Rep) (hP : C.IsPoint P) : C.IsPoint (C.negate P) := by
  obtain ⟨Q, hQ⟩ := h.isPoint_iff.1 hP
  exact h.isPoint (h.negate hQ)

theorem isPoint_scalarMul (h : C.Represented Rep) (hP : C.IsPoint P) (k : Nat) :
    C.IsPoint (C.scalarMul k P) := by
  obtain ⟨Q, hQ⟩ := h.isPoint_iff.1 hP
  exact h.isPoint (h.scalarMul hQ k)

protected theorem add_assoc (h : C.Represented Rep) (hP : C.IsPoint P) (hP' : C.IsPoint P')
    (hP'' : C.IsPoint P'') : C.add (C.add P P') P'' = C.add P (C.add P' P'') := by
  obtain ⟨Q, hQ⟩ := h.isPoint_iff.1 hP
  obtain ⟨Q', hQ'⟩ := h.isPoint_iff.1 hP'
  obtain ⟨Q'', hQ''⟩ := h.isPoint_iff.1 hP''
  have hleft := h.add (h.add hQ hQ') hQ''
  rw [add_assoc] at hleft
  exact h.injective hleft (h.add hQ (h.add hQ' hQ''))

protected theorem add_comm (h : C.Represented Rep) (hP : C.IsPoint P) (hP' : C.IsPoint P') :
    C.add P P' = C.add P' P := by
  obtain ⟨Q, hQ⟩ := h.isPoint_iff.1 hP
  obtain ⟨Q', hQ'⟩ := h.isPoint_iff.1 hP'
  have hleft := h.add hQ hQ'
  rw [add_comm] at hleft
  exact h.injective hleft (h.add hQ' hQ)

theorem add_identity (h : C.Represented Rep) (hP : C.IsPoint P) : C.add P C.identity = P := by
  obtain ⟨Q, hQ⟩ := h.isPoint_iff.1 hP
  have hsum := h.add hQ h.identity
  rw [add_zero] at hsum
  exact h.injective hsum hQ

theorem add_negate (h : C.Represented Rep) (hP : C.IsPoint P) : C.add P (C.negate P) = C.identity := by
  obtain ⟨Q, hQ⟩ := h.isPoint_iff.1 hP
  have hsum := h.add hQ (h.negate hQ)
  rw [add_neg_cancel] at hsum
  exact h.injective hsum h.identity

/-- A multiple is the sum of as many copies of the point as the reduced scalar says. -/
theorem scalarMul_eq_iterate (h : C.Represented Rep) (hP : C.IsPoint P) (k : Nat) :
    C.scalarMul k P = (fun S => C.add S P)^[k % C.order] C.identity := by
  obtain ⟨Q, hQ⟩ := h.isPoint_iff.1 hP
  have hcopies : ∀ j, Rep ((fun S => C.add S P)^[j] C.identity) (j • Q) := by
    intro j
    induction j with
    | zero =>
      rw [zero_nsmul]
      exact h.identity
    | succ j ih =>
      rw [Function.iterate_succ_apply', succ_nsmul]
      exact h.add ih hQ
  exact h.injective (h.scalarMul hQ k) (hcopies _)

/-- Where the order annihilates the group, nothing is lost by reducing a scalar. -/
theorem scalarMul_nsmul (h : C.Represented Rep) (horder : ∀ Q : G, C.order • Q = 0) {Q : G} (hP : Rep P Q)
    (k : Nat) : Rep (C.scalarMul k P) (k • Q) := by
  rw [nsmul_eq_mod_nsmul k (horder Q)]
  exact h.scalarMul hP k

theorem groupLaws (h : C.Represented Rep) (hgenerator : C.IsPoint C.generator)
    (hmul : ∀ k, C.mulGenerator k = C.scalarMul k C.generator) (horder : ∀ Q : G, C.order • Q = 0) :
    C.GroupLaws where
  isPoint_generator := hgenerator
  isPoint_add P P' hP hP' := h.isPoint_add hP hP'
  isPoint_negate P hP := h.isPoint_negate hP
  add_assoc P P' P'' hP hP' hP'' := h.add_assoc hP hP' hP''
  add_comm P P' hP hP' := h.add_comm hP hP'
  add_identity P hP := h.add_identity hP
  add_negate P hP := h.add_negate hP
  scalarMul_zero P hP := by
    rw [h.scalarMul_eq_iterate hP, Nat.zero_mod]
    rfl
  scalarMul_succ k P hP := by
    obtain ⟨Q, hQ⟩ := h.isPoint_iff.1 hP
    have hleft := h.scalarMul_nsmul horder hQ (k + 1)
    rw [succ_nsmul] at hleft
    exact h.injective hleft (h.add (h.scalarMul_nsmul horder hQ k) hQ)
  mulGenerator_eq := hmul
  scalarMul_order P hP := by
    rw [h.scalarMul_eq_iterate hP, Nat.mod_self]
    rfl

end Represented

end BlindSchnorr.CurveGroup
