import BlackOilWells.Proofs.Elimination

/-!
# The stored inverse

The linear system of a well keeps the inverse of its Jacobian, and all its products use it.  A history of accesses
(`WellSystem.Access`) writes to the matrices and to the residual and eliminates, in any order.  At every point of it the
system either comes from an elimination with the Jacobian of that point, or holds no inverse at all
(`WellSystem.run_inverse`); which of the two is the case depends on whether an elimination has succeeded since the last
write to a matrix (`WellSystem.EliminatedSince`).  So no product is ever formed with the inverse of an older Jacobian
(`WellSystem.products_of_history`).
-/

namespace BlackOilWells

variable {K : Type} [Field K]

namespace WellSystem

/-! ### Histories -/

/-- An access to the linear system of a well. -/
inductive Access (K : Type) where
  /-- Write the derivatives of the reservoir equations at a connection. -/
  | toReservoir (k : Nat) (b : Block K)
  /-- Write the derivatives of the well equations at a connection. -/
  | toWell (k : Nat) (b : Block K)
  | jacobian (d : Block K)
  | residual (r : Vec3 K)
  | eliminate (well : Option String)

/-- Whether the access writes to one of the matrices. -/
def Access.writesMatrix : Access K → Bool
  | .toReservoir _ _ | .toWell _ _ | .jacobian _ => true
  | .residual _ | .eliminate _ => false

section Histories

variable [LinearOrder K]

/-- What an access leaves.  An elimination that fails leaves the system as it is. -/
def perform (s : WellSystem K) : Access K → Outcome K (WellSystem K)
  | .toReservoir k b => s.setToReservoir k b
  | .toWell k b => s.setToWell k b
  | .jacobian d => .ok (s.setJacobian d)
  | .residual r => .ok (s.setResidual r)
  | .eliminate well => .ok ((s.eliminate well).toOption.getD s)

/-- What a history leaves.  A write past the last connection ends it. -/
def run (s : WellSystem K) (history : List (Access K)) : Outcome K (WellSystem K) := history.foldlM perform s

/-- Whether an elimination has succeeded in a history, and no matrix was written to since. -/
def EliminatedSince (s : WellSystem K) (history : List (Access K)) : Prop :=
  ∃ before well after, history = before ++ .eliminate well :: after ∧
    (∃ t u, s.run before = .ok t ∧ t.eliminate well = .ok u) ∧ ∀ a ∈ after, a.writesMatrix = false

variable {s t u : WellSystem K} {history : List (Access K)} {a : Access K}

private theorem run_concat : s.run (history ++ [a]) = .ok u ↔ ∃ t, s.run history = .ok t ∧ t.perform a = .ok u := by
  rw [run, List.foldlM_append, Outcome.bind_ok]
  refine exists_congr fun t => and_congr_right fun _ => ?_
  rw [List.foldlM_cons, Outcome.bind_ok]
  constructor
  · rintro ⟨v, hv, h⟩
    cases h
    exact hv
  · exact fun h => ⟨u, h, rfl⟩

private theorem not_eliminatedSince_nil : ¬EliminatedSince s [] := by
  rintro ⟨before, well, after, h, -⟩
  exact List.append_ne_nil_of_right_ne_nil before (List.cons_ne_nil _ after) h.symm

/-- One more access: it is a successful elimination, or one has succeeded before and the access keeps the matrices. -/
private theorem eliminatedSince_concat (ht : s.run history = .ok t) : s.EliminatedSince (history ++ [a]) ↔
    (∃ well u, a = .eliminate well ∧ t.eliminate well = .ok u) ∨
      (a.writesMatrix = false ∧ s.EliminatedSince history) := by
  constructor
  · rintro ⟨before, well, after, h, ⟨t', u, ht', hu⟩, hafter⟩
    rcases List.eq_nil_or_concat after with rfl | ⟨after, b, rfl⟩
    · obtain ⟨rfl, hb⟩ := List.append_inj' h rfl
      rw [ht, Except.ok.injEq] at ht'
      subst ht'
      exact .inl ⟨well, u, (List.cons.inj hb).1, hu⟩
    · rw [List.concat_eq_append] at h hafter
      rw [← List.cons_append, ← List.append_assoc] at h
      obtain ⟨rfl, hb⟩ := List.append_inj' h rfl
      rw [(List.cons.inj hb).1]
      exact .inr ⟨hafter b (by simp), before, well, after, rfl, ⟨t', u, ht', hu⟩, fun c hc => hafter c (by simp [hc])⟩
  · rintro (⟨well, u, rfl, hu⟩ | ⟨ha, before, well, after, rfl, hbefore, hafter⟩)
    · exact ⟨history, well, [], rfl, ⟨t, u, ht, hu⟩, nofun⟩
    · refine ⟨before, well, after ++ [a], by simp, hbefore, fun b hb => ?_⟩
      rcases List.mem_append.1 hb with hb | hb
      · exact hafter b hb
      · rw [List.mem_singleton.1 hb]
        exact ha

/-! ### The inverse along a history -/

/-- An elimination succeeds exactly if the Jacobian has an inverse. -/
theorem eliminate_ok_iff (s : WellSystem K) (well : Option String) :
    (∃ t, s.eliminate well = .ok t) ↔ ∃ inv, s.jacobian.IsInverse inv := by
  unfold eliminate
  constructor
  · rintro ⟨t, h⟩
    split at h
    · rename_i inv hinv
      exact ⟨inv, Block.inverse?_eq_some_iff.1 (invert_ok.1 hinv)⟩
    · cases h
  · rintro ⟨inv, h⟩
    rw [invert_ok.2 (Block.inverse?_eq_some_iff.2 h)]
    exact ⟨_, rfl⟩

private theorem inverse_of_writesMatrix (ha : a.writesMatrix = true) (h : t.perform a = .ok u) : u.inverse = none := by
  cases a with
  | toReservoir k b =>
    obtain ⟨c, -, h⟩ := Outcome.bind_ok.1 h
    cases h
    rfl
  | toWell k b =>
    obtain ⟨c, -, h⟩ := Outcome.bind_ok.1 h
    cases h
    rfl
  | jacobian d =>
    cases h
    rfl
  | residual r => cases ha
  | eliminate well => cases ha

/-- At every point of a history the stored inverse is that of the Jacobian, if an elimination has succeeded since the last
write to a matrix, and otherwise there is none. -/
theorem run_inverse (cells : List Nat) (h : (empty cells).run history = .ok t) :
    ((empty cells).EliminatedSince history → t.IsEliminated) ∧
      (¬(empty cells).EliminatedSince history → t.inverse = none) := by
  -- the induction is on the last access, because that decides what is left of the ones before
  induction history using List.reverseRecOn generalizing t with
  | nil =>
    cases h
    exact ⟨fun he => absurd he not_eliminatedSince_nil, fun _ => rfl⟩
  | append_singleton history a ih =>
    obtain ⟨v, hv, h⟩ := run_concat.1 h
    obtain ⟨hsince, hnot⟩ := ih hv
    rw [eliminatedSince_concat hv]
    by_cases ha : a.writesMatrix = true
    · refine ⟨?_, fun _ => inverse_of_writesMatrix ha h⟩
      rintro (⟨well, u, rfl, -⟩ | ⟨hkeeps, -⟩)
      · cases ha
      · rw [ha] at hkeeps
        cases hkeeps
    cases a with
    | residual r =>
      cases h
      refine ⟨?_, fun hn => hnot fun he => hn (.inr ⟨rfl, he⟩)⟩
      rintro (⟨well, u, hw, -⟩ | ⟨-, he⟩)
      · cases hw
      · obtain ⟨inv, hinv, hd⟩ := IsEliminated.iff_inverse.1 (hsince he)
        exact IsEliminated.iff_inverse.2 ⟨inv, hinv, hd⟩
    | eliminate well =>
      cases h
      cases hrun : v.eliminate well with
      | ok u =>
        exact ⟨fun _ => ⟨v, well, hrun⟩, fun hn => absurd (.inl ⟨well, _, rfl, hrun⟩) hn⟩
      | error e =>
        -- the elimination is refused for a Jacobian without an inverse, and so is every one since the last write
        have hrefused : ¬v.IsEliminated := by
          intro he
          obtain ⟨inv, -, hinv⟩ := IsEliminated.iff_inverse.1 he
          obtain ⟨u, hu⟩ := (v.eliminate_ok_iff well).2 ⟨inv, Block.inverse?_eq_some_iff.1 hinv⟩
          rw [hrun] at hu
          cases hu
        refine ⟨?_, fun _ => hnot fun he => hrefused (hsince he)⟩
        rintro (⟨well', u, hw, hu⟩ | ⟨-, he⟩)
        · cases hw
          rw [hrun] at hu
          cases hu
        · exact absurd (hsince he) hrefused
    | toReservoir k b => exact absurd rfl ha
    | toWell k b => exact absurd rfl ha
    | jacobian d => exact absurd rfl ha

/-! ### Products along a history -/

/-- All products of the system, with a given matrix for the inverse of its Jacobian. -/
structure ProductsBy (s : WellSystem K) (inv : Block K) : Prop where
  wellUpdate : s.wellUpdate = .ok (inv.mulVec s.residual)
  reducedBlocks : s.reducedBlocks = .ok (s.couplings.flatMap fun row =>
    s.couplings.map fun col => ⟨row.cell, col.cell, (row.toReservoir.mul inv).mul col.toWell⟩)
  recover : ∀ x : List (Vec3 K), (∀ c ∈ s.cells, c < x.length) →
    s.recover x = .ok (inv.mulVec (s.residual - s.reservoirPart x))
  applyResidual : ∀ r : List (Vec3 K), (∀ c ∈ s.cells, c < r.length) →
    ∃ r', s.applyResidual r = (.ok ⟨⟩, r') ∧ r'.length = r.length ∧ ∀ i, r'.getD i 0 =
      r.getD i 0 - atCell (fun c => c.toReservoir.mulVec (inv.mulVec s.residual)) s.couplings i
  applyScaled : ∀ (a : K) (x ax : List (Vec3 K)), (∀ c ∈ s.cells, c < x.length) → (∀ c ∈ s.cells, c < ax.length) →
    ∃ ax', s.applyScaled a x ax = (.ok ⟨⟩, ax') ∧ ax'.length = ax.length ∧ ∀ i, ax'.getD i 0 =
      ax.getD i 0 - atCell (fun c => (c.toReservoir.mulVec (inv.mulVec (s.reservoirPart x))).scale a) s.couplings i

/-- All products of the system are refused, and the vectors stay as they are. -/
structure RefusesProducts (s : WellSystem K) : Prop where
  wellUpdate : s.wellUpdate = .error (.logic .notEliminated)
  reducedBlocks : s.reducedBlocks = .error (.logic .notEliminated)
  recover : ∀ x, s.recover x = .error (.logic .notEliminated)
  applyResidual : ∀ r, s.applyResidual r = (.error (.logic .notEliminated), r)
  applyScaled : ∀ a x ax, s.applyScaled a x ax = (.error (.logic .notEliminated), ax)

private theorem IsEliminated.productsBy (h : s.IsEliminated) : ∃ inv, s.jacobian.IsInverse inv ∧ s.ProductsBy inv := by
  obtain ⟨inv, hs, hd⟩ := iff_inverse.1 h
  have hsolve : s.solveWell = inv.mulVec := by
    unfold solveWell
    rw [hs, Option.getD_some]
  have hget : s.getInverse = .ok inv := by
    unfold getInverse
    rw [hs]
  refine ⟨inv, Block.inverse?_eq_some_iff.1 hd, ?_, ?_, fun x hx => ?_, fun r hr => ?_, fun a x ax hx hax => ?_⟩
  · rw [wellUpdate, hget]
    rfl
  · rw [reducedBlocks, hget]
    rfl
  · rw [h.recover_eq hx, hsolve]
  · have hrun := h.applyResidual_run r hr
    rwa [hsolve] at hrun
  · have hrun := h.applyScaled_run a hx hax
    rwa [hsolve] at hrun

private theorem refusesProducts_of_inverse (h : s.inverse = none) : s.RefusesProducts := by
  have hget : s.getInverse = .error (.logic .notEliminated) := by
    unfold getInverse
    rw [h]
  refine ⟨?_, ?_, fun x => ?_, fun r => ?_, fun a x ax => ?_⟩
  · rw [wellUpdate, hget]
    rfl
  · rw [reducedBlocks, hget]
    rfl
  · rw [recover, hget]
    rfl
  · rw [applyResidual, wellUpdate, hget]
    rfl
  · rw [applyScaled, hget]
    rfl

/-- After any history an elimination succeeds exactly if the Jacobian has an inverse.  If one has succeeded since the last
write to a matrix, all products use the inverse of the Jacobian and the residual that the system holds now, and otherwise
they are all refused. -/
theorem products_of_history (cells : List Nat) (history : List (Access K)) (s : WellSystem K)
    (hs : (empty cells).run history = .ok s) :
    (∀ well, (∃ t, s.eliminate well = .ok t) ↔ ∃ inv, s.jacobian.IsInverse inv) ∧
      ((empty cells).EliminatedSince history → ∃ inv, s.jacobian.IsInverse inv ∧ s.ProductsBy inv) ∧
      (¬(empty cells).EliminatedSince history → s.RefusesProducts) := by
  obtain ⟨hsince, hnot⟩ := run_inverse cells hs
  refine ⟨fun well => s.eliminate_ok_iff well, fun he => ?_, fun hn => ?_⟩
  · exact (hsince he).productsBy
  · exact refusesProducts_of_inverse (hnot hn)

end Histories

/-! ### A Jacobian that is written again -/

/-- A system is eliminated, its Jacobian is written again and eliminated again. -/
def rewritten : List (Access ℚ) :=
  [.toReservoir 0 ⟨⟨1, 2, 0⟩, ⟨0, 1, 0⟩, ⟨3, 0, 1⟩⟩, .toWell 0 ⟨⟨1, 0, 0⟩, ⟨0, 2, 5⟩, ⟨0, 0, 1⟩⟩, .eliminate none,
    .jacobian ⟨⟨1, 1, 0⟩, ⟨0, 1, 0⟩, ⟨1, 0, 1⟩⟩, .eliminate none, .jacobian ⟨⟨2, 0, 0⟩, ⟨0, 4, 0⟩, ⟨0, 0, 1⟩⟩]

/-- After the second write all products are refused, and after the second elimination they use the inverse of the second
Jacobian. -/
theorem products_of_history_rewritten :
    (∃ s, (empty [0]).run rewritten = .ok s ∧ ¬(empty [0]).EliminatedSince rewritten ∧ s.RefusesProducts) ∧
      ∃ s, (empty [0]).run (rewritten ++ [.eliminate (some "P"), .residual ⟨1, -2, 3⟩]) = .ok s ∧
        (empty [0]).EliminatedSince (rewritten ++ [.eliminate (some "P"), .residual ⟨1, -2, 3⟩]) ∧
        ∃ inv, s.jacobian.IsInverse inv ∧ s.ProductsBy inv := by
  have hrun : ((empty [0]).run rewritten >>= (·.eliminate (some "P"))).toOption.isSome = true := by decide +kernel
  obtain ⟨u, hu⟩ := Option.isSome_iff_exists.1 hrun
  obtain ⟨s, hs, hu⟩ := Outcome.bind_ok.1 (Outcome.ok_of_toOption hu)
  have hlater : (empty [0]).run (rewritten ++ [.eliminate (some "P"), .residual ⟨1, -2, 3⟩]) =
      .ok (u.setResidual ⟨1, -2, 3⟩) := by
    rw [List.append_cons, run_concat]
    refine ⟨u, run_concat.2 ⟨s, hs, ?_⟩, rfl⟩
    rw [perform, hu]
    rfl
  have hsince : (empty [0]).EliminatedSince (rewritten ++ [.eliminate (some "P"), .residual ⟨1, -2, 3⟩]) :=
    ⟨rewritten, some "P", [.residual ⟨1, -2, 3⟩], rfl, ⟨s, u, hs, hu⟩, by simp [Access.writesMatrix]⟩
  have hnot : ¬(empty [0]).EliminatedSince rewritten := by
    cases hbefore : (empty [0]).run (rewritten.take 5) with
    | error e =>
      have hok : ((empty [0]).run (rewritten.take 5)).toOption.isSome = true := by decide +kernel
      rw [hbefore] at hok
      cases hok
    | ok t =>
      rw [show rewritten = rewritten.take 5 ++ [.jacobian ⟨⟨2, 0, 0⟩, ⟨0, 4, 0⟩, ⟨0, 0, 1⟩⟩] from rfl,
        eliminatedSince_concat hbefore]
      rintro (⟨_, _, h, -⟩ | ⟨h, -⟩) <;> cases h
  exact ⟨⟨s, hs, hnot, (products_of_history [0] _ s hs).2.2 hnot⟩, _, hlater, hsince,
    (products_of_history [0] _ _ hlater).2.1 hsince⟩

end WellSystem

end BlackOilWells
