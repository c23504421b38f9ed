import BlindSchnorr.Proofs.Arith.UniformDraw
import BlindSchnorr.Proofs.Blind.Completeness
import BlindSchnorr.Proofs.Signing.SharedNonce

/-!
# Two answers under one nonce

Sessions that read the same random bytes hold the same nonce. Their answers to two challenges are
two equations in the nonce and the key, and modulo a prime order the key is what the recovery
computes from them, unless the challenges are congruent.
-/
namespace BlindSchnorr

variable {C : CurveGroup}

/-- The recovered key is the number below the order that solves both equations. Without a difference
between the challenges nothing is left of it. -/
theorem recoverKey_eq {n k x e₁ e₂ s₁ s₂ : Nat} (hn : n.Prime) (hx : x < n)
    (h₁ : s₁ ≡ k + e₁ * x [MOD n]) (h₂ : s₂ ≡ k + e₂ * x [MOD n]) :
    recoverKey n s₁ s₂ e₁ e₂ = if e₁ ≡ e₂ [MOD n] then 0 else x := by
  have : Fact n.Prime := ⟨hn⟩
  have hlt : recoverKey n s₁ s₂ e₁ e₂ < n := Nat.mod_lt _ hn.pos
  rw [← ZMod.natCast_eq_natCast_iff] at h₁ h₂
  push_cast at h₁ h₂
  have hdifference : (s₁ : ZMod n) - s₂ = (e₁ - e₂) * x := by
    rw [h₁, h₂]
    ring
  split_ifs with he
  · have hzero : (recoverKey n s₁ s₂ e₁ e₂ : ZMod n) = 0 := by
      rw [recoverKey, ZMod.natCast_mod, Nat.cast_mul, Modular.cast_sub, hdifference,
        (ZMod.natCast_eq_natCast_iff _ _ _).2 he, sub_self, zero_mul, zero_mul]
    exact Nat.eq_zero_of_dvd_of_lt ((ZMod.natCast_eq_zero_iff _ _).1 hzero) hlt
  · have hsolves : ((e₁ : ℤ) - e₂) * recoverKey n s₁ s₂ e₁ e₂ ≡ s₁ - s₂ [ZMOD n] :=
      recoverKey_mul_modEq hn he
    rw [← ZMod.intCast_eq_intCast_iff] at hsolves
    push_cast at hsolves
    rw [hdifference] at hsolves
    have hne : (e₁ : ZMod n) - e₂ ≠ 0 := by
      rw [sub_ne_zero]
      exact fun h => he ((ZMod.natCast_eq_natCast_iff _ _ _).1 h)
    have hcast := (ZMod.natCast_eq_natCast_iff _ _ _).1 (mul_left_cancel₀ hne hsolves)
    exact hcast.eq_of_lt_of_lt hlt hx

/-- A draw depends on the bytes that it takes and not on those behind them. -/
lemma Scalar.search_congr {n v : Nat} (hn : 0 < n) {used rest : Bytes}
    (h : search n (used ++ rest) = some (v, rest)) (rest' : Bytes) :
    search n (used ++ rest') = some (v, rest') := by
  obtain ⟨refused, b, hrefused, hrange, hv, htape⟩ := (search_eq_some_iff hn).1 h
  refine (search_eq_some_iff hn).2 ⟨refused, b, hrefused, hrange, hv, ?_⟩
  rw [← List.append_assoc] at htape ⊢
  rw [List.append_cancel_right htape]

namespace Session

lemma nonce_eq_of_used (hpos : 0 < C.order) {used rest₁ rest₂ : Bytes} {s₁ s₂ : Session}
    (h₁ : (start C).run (used ++ rest₁) = some (.ok s₁, rest₁))
    (h₂ : (start C).run (used ++ rest₂) = some (.ok s₂, rest₂)) :
    ∃ nonce, s₁.nonce = some nonce ∧ s₂.nonce = some nonce := by
  obtain ⟨k₁, _, hk₁, _, rfl⟩ := start_eq_ok_iff.1 h₁
  obtain ⟨k₂, _, hk₂, _, rfl⟩ := start_eq_ok_iff.1 h₂
  rw [Scalar.search_congr hpos hk₁, Option.some.injEq, Prod.mk.injEq] at hk₂
  exact ⟨_, rfl, by rw [hk₂.1]⟩

/-- Sessions that are opened with the same random bytes hold the same nonce. Of two sessions that
hold the same nonce each answers a well-formed call, and the answers to two challenges give the private key
away; only from congruent challenges zero is recovered. -/
theorem recoverKey_of_reused_nonce (hn : C.order.Prime) (hlt : C.order < 2 ^ 256) :
    (∀ (used rest₁ rest₂ : Bytes) (s₁ s₂ : Session),
      (start C).run (used ++ rest₁) = some (.ok s₁, rest₁) →
      (start C).run (used ++ rest₂) = some (.ok s₂, rest₂) →
        ∃ nonce, s₁.nonce = some nonce ∧ s₂.nonce = some nonce) ∧
    ∀ (s₁ s₂ : Session) (nonce : Word) (key e₁ e₂ : Bytes),
      s₁.nonce = some nonce → s₂.nonce = some nonce →
      key.length = 32 → Scalar.InRange (Bytes.toNat key) C.order → e₁.length = 32 → e₂.length = 32 →
        ∃ t₁ t₂, (s₁.sign C key e₁).1 = .ok t₁ ∧ (s₂.sign C key e₂).1 = .ok t₂ ∧
          recoverKey C.order t₁.toNat t₂.toNat (Bytes.toNat e₁) (Bytes.toNat e₂) =
            if Bytes.toNat e₁ ≡ Bytes.toNat e₂ [MOD C.order] then 0 else Bytes.toNat key := by
  constructor
  · intro used rest₁ rest₂ s₁ s₂ h₁ h₂
    exact nonce_eq_of_used hn.pos h₁ h₂
  · intro s₁ s₂ nonce key e₁ e₂ h₁ h₂ hkey hrange he₁ he₂
    have hread₁ := Query.read_eq_ok_iff.2 ⟨hkey, he₁, hrange, rfl⟩
    have hread₂ := Query.read_eq_ok_iff.2 ⟨hkey, he₂, hrange, rfl⟩
    refine ⟨_, _, congrArg Prod.fst (sign_of_read hread₁ h₁), congrArg Prod.fst (sign_of_read hread₂ h₂), ?_⟩
    rw [Query.toNat_respond hn.pos hlt, Query.toNat_respond hn.pos hlt]
    exact recoverKey_eq hn hrange.2 (Nat.mod_modEq _ _) (Nat.mod_modEq _ _)

/-- Two sessions on the toy curve, both opened with the bytes of the nonce 11, and the key 5. The
challenges 434 and 968, which is above the order, give it away; 434 and 1341 are congruent. -/
theorem recoverKey_of_reused_nonce_toy : ∃ s₁ s₂ t₁ t₂ t₃,
    (start toyCurve).run [0, 11] = some (.ok s₁, []) ∧
    (start toyCurve).run [0, 11, 7] = some (.ok s₂, [7]) ∧
    (s₁.sign toyCurve (Bytes.ofNat 32 5) (Bytes.ofNat 32 434)).1 = .ok t₁ ∧
    (s₂.sign toyCurve (Bytes.ofNat 32 5) (Bytes.ofNat 32 968)).1 = .ok t₂ ∧
    (s₂.sign toyCurve (Bytes.ofNat 32 5) (Bytes.ofNat 32 1341)).1 = .ok t₃ ∧
    recoverKey 907 t₁.toNat t₂.toNat 434 968 = 5 ∧ recoverKey 907 t₁.toNat t₃.toNat 434 1341 = 0 := by
  have hcode : toyCurve.compress (toyCurve.mulGenerator 11) =
      .ok (.compressed false (Block.ofNat 32 655)) := by decide +kernel
  have hopen₁ : (start toyCurve).run ([0, 11] ++ []) = some (.ok _, []) :=
    start_eq_ok_iff.2 ⟨11, _, toy_draw, hcode, rfl⟩
  have hopen₂ : (start toyCurve).run ([0, 11] ++ [7]) = some (.ok _, [7]) :=
    start_eq_ok_iff.2 ⟨11, _, Scalar.search_congr (by decide) toy_draw [7], hcode, rfl⟩
  obtain ⟨hsame, hleak⟩ :=
    recoverKey_of_reused_nonce (show toyCurve.order.Prime from (by norm_num : Nat.Prime 907)) (by decide)
  obtain ⟨nonce, hnonce₁, hnonce₂⟩ := hsame _ _ _ _ _ hopen₁ hopen₂
  have hleak := fun e₁ e₂ : Nat => hleak _ _ nonce (Bytes.ofNat 32 5) (Bytes.ofNat 32 e₁) (Bytes.ofNat 32 e₂)
    hnonce₁ hnonce₂ (by simp) (by decide) (by simp) (by simp)
  obtain ⟨t₁, t₂, ht₁, ht₂, hkey⟩ := hleak 434 968
  obtain ⟨t₁', t₃, ht₁', ht₃, hzero⟩ := hleak 434 1341
  rw [ht₁, Except.ok.injEq] at ht₁'
  subst ht₁'
  rw [if_neg (by decide)] at hkey
  rw [if_pos (by decide)] at hzero
  exact ⟨_, _, t₁, t₂, t₃, hopen₁, hopen₂, ht₁, ht₂, ht₃, hkey, hzero⟩

end Session

end BlindSchnorr
