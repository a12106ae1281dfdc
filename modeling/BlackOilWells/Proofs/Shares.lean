import BlackOilWells.Proofs.Places
import BlackOilWells.Proofs.Reassembly
import BlackOilWells.Proofs.Slots
import BlackOilWells.Proofs.Windows

/-!
# Shares of wells

What a flow state holds for a well and its connections is itself a flow state, that of the well alone: its share
(`FlowState.share`).  An operation on one well is `Local` if it reads and writes the share of that well only.  One that
goes through all wells separates (`FlowState.SeparatesAt`): it succeeds exactly if what it does for each well succeeds
on the share of the well, and leaves the same there.  Separation is closed under sequences, and traversals that are
local well by well separate.
-/

namespace BlackOilWells

open Attempt

variable {α β δ : Type}

namespace FlowState

/-! ### Shares -/

/-- What a state holds for a well, as a state of the well alone.  The wells have given numbers of connections. -/
def share (ns : List Nat) (w : Nat) (s : FlowState α) : FlowState α where
  bhp := window w 1 s.bhp
  thp := window w 1 s.thp
  rates := window (3 * w) 3 s.rates
  unknowns := window (3 * w) 3 s.unknowns
  control := window w 1 s.control
  connectionPressure := window (ns.take w).sum (ns[w]?.getD 0) s.connectionPressure
  connectionRates := window (3 * (ns.take w).sum) (3 * ns[w]?.getD 0) s.connectionRates
  potentials := window (3 * (ns.take w).sum) (3 * ns[w]?.getD 0) s.potentials
  revision := s.revision

/-- Whether a state is one of wells with given numbers of connections, as far as that is checked. -/
def Sized (ns : List Nat) (s : FlowState α) : Prop := s.bhp.length = ns.length ∧ s.connectionPressure.length = ns.sum

variable (ns : List Nat) (s : FlowState α)

theorem slot_share (w : Nat) : (s.share ns w).slot 0 = s.slot w := by
  have hone {β : Type} (xs : List β) : (window w 1 xs)[0]? = xs[w]? := getElem?_window xs Nat.one_pos
  have hthree {β : Type} (xs : List β) : Stride.get? (window (3 * w) 3 xs) 0 = Stride.get? xs w :=
    Stride.get?_window xs (n := 1) Nat.one_pos
  unfold slot share
  simp only [hone, hthree]

private theorem share_putSlot (w : Nat) (t : Slot α) : (s.putSlot w t).share ns w = (s.share ns w).putSlot 0 t := by
  have hone {β : Type} (xs : List β) (b : β) : window w 1 (xs.set w b) = (window w 1 xs).set 0 b :=
    window_set xs w 1 0 b
  have hthree (xs : List α) (v : Vec3 α) :
      window (3 * w) 3 (Stride.set xs w v) = Stride.set (window (3 * w) 3 xs) 0 v := Stride.window_set xs w 1 0 v
  obtain ⟨bhp, thp, rates, unknowns, control⟩ := t
  unfold share putSlot
  congr 1
  · cases bhp
    · rfl
    · exact hone ..
  · cases thp
    · rfl
    · exact hone ..
  · cases rates
    · rfl
    · exact hthree ..
  · cases unknowns
    · rfl
    · exact hthree ..
  · cases control
    · rfl
    · exact hone ..

private theorem share_putSlot_of_ne {w v : Nat} (h : v ≠ w) (t : Slot α) :
    (s.putSlot w t).share ns v = s.share ns v := by
  have hone {β : Type} (xs : List β) (b : β) : window v 1 (xs.set w b) = window v 1 xs :=
    window_set_of_disjoint xs (by omega) b
  have hthree (xs : List α) (x : Vec3 α) : window (3 * v) 3 (Stride.set xs w x) = window (3 * v) 3 xs :=
    Stride.window_set_of_disjoint xs (n := 1) (by omega) x
  obtain ⟨bhp, thp, rates, unknowns, control⟩ := t
  unfold share putSlot
  congr 1
  · cases bhp
    · rfl
    · exact hone ..
  · cases thp
    · rfl
    · exact hone ..
  · cases rates
    · rfl
    · exact hthree ..
  · cases unknowns
    · rfl
    · exact hthree ..
  · cases control
    · rfl
    · exact hone ..

/-- Writing at a connection of a well. -/
private theorem share_putConnection {w k : Nat} (ps : List α) (rs : List α) (p : α) (v : Vec3 α) :
    ({ s with
        connectionPressure := ps.set ((ns.take w).sum + k) p
        connectionRates := Stride.set rs ((ns.take w).sum + k) v } : FlowState α).share ns w =
      { ({ s with connectionPressure := ps, connectionRates := rs } : FlowState α).share ns w with
        connectionPressure := (window (ns.take w).sum (ns[w]?.getD 0) ps).set k p
        connectionRates := Stride.set (window (3 * (ns.take w).sum) (3 * ns[w]?.getD 0) rs) k v } := by
  unfold share
  congr 1
  · exact window_set ..
  · exact Stride.window_set ..

/-- The connections of a well come before those of a later one. -/
private theorem sum_take_add_le {w v : Nat} (h : w < v) : (ns.take w).sum + ns[w]?.getD 0 ≤ (ns.take v).sum := by
  have hoffset (i : Nat) : (ns.take i).sum = Placed.offset id ns i := by rw [Placed.offset, List.map_id]
  rw [hoffset, hoffset]
  cases hc : ns[w]? with
  | none => exact Placed.offset_mono (Nat.le_of_lt h)
  | some n => exact Placed.offset_add_le hc h

/-- Writing at a connection of another well. -/
private theorem share_putConnection_of_ne {w v k : Nat} (h : v ≠ w) (hk : k < ns[w]?.getD 0) (p : α) (x : Vec3 α) :
    ({ s with
        connectionPressure := s.connectionPressure.set ((ns.take w).sum + k) p
        connectionRates := Stride.set s.connectionRates ((ns.take w).sum + k) x } : FlowState α).share ns v =
      s.share ns v := by
  have hdisjoint : (ns.take w).sum + k < (ns.take v).sum ∨ (ns.take v).sum + ns[v]?.getD 0 ≤ (ns.take w).sum + k := by
    rcases Nat.lt_or_gt_of_ne h with h | h
    · have hle := sum_take_add_le ns h
      omega
    · have hle := sum_take_add_le ns h
      omega
  unfold share
  congr 1
  · exact window_set_of_disjoint _ hdisjoint _
  · exact Stride.window_set_of_disjoint _ hdisjoint _

variable {ns s}

/-! ### Operations on one well -/

/-- Whether an attempt reads and writes the share of one well only.  On the share of the well alone `act₀` does the
same. -/
structure Local (ns : List Nat) (w : Nat) (act act₀ : Attempt α (FlowState α) β) : Prop where
  same : Agrees (fun s s₀ => s₀ = s.share ns w) act act₀
  others : ∀ v, v ≠ w → ∀ t : FlowState α, Maintains (fun s => s.share ns v = t) act
  sized : Maintains (Sized ns) act

namespace Local

variable {w : Nat}

theorem forM {f f₀ : δ → Attempt α (FlowState α) PUnit} {ds : List δ} (h : ∀ d ∈ ds, Local ns w (f d) (f₀ d)) :
    Local ns w (ds.forM f) (ds.forM f₀) where
  same := .forM fun d hd => (h d hd).same
  others v hv t := .forM fun d hd => (h d hd).others v hv t
  sized := .forM fun d hd => (h d hd).sized

theorem onSlot (ns : List Nat) (w : Nat) (act : Attempt α (Slot α) β) : Local ns w (onSlot w act) (onSlot 0 act) where
  same := by
    rintro s _ rfl
    rw [run_onSlot, run_onSlot, slot_share]
    exact ⟨rfl, (share_putSlot ns s w _).symm⟩
  others v hv t := by
    rintro s rfl
    rw [run_onSlot]
    exact share_putSlot_of_ne ns s hv _
  sized := by
    rintro s ⟨hb, hp⟩
    refine ⟨?_, hp⟩
    rw [run_onSlot]
    rcases act (s.slot w) with ⟨o, bhp | b, thp, rates, unknowns, control⟩
    · exact hb
    · exact (List.length_set ..).trans hb

theorem putConnection {k : Nat} (hk : k < ns[w]?.getD 0) (p : α) (q : PerPhase α) :
    Local ns w (putConnection ((ns.take w).sum + k) p q) (putConnection k p q) where
  same := by
    rintro s _ rfl
    have hroom : k < (s.share ns w).connectionPressure.length ∧ 3 * k + 2 < (s.share ns w).connectionRates.length ↔
        (ns.take w).sum + k < s.connectionPressure.length ∧
          3 * ((ns.take w).sum + k) + 2 < s.connectionRates.length := by
      have hpressure : (s.share ns w).connectionPressure.length = _ := length_window ..
      have hrates : (s.share ns w).connectionRates.length = _ := length_window ..
      omega
    rw [run_putConnection, run_putConnection]
    by_cases h : k < (s.share ns w).connectionPressure.length ∧ 3 * k + 2 < (s.share ns w).connectionRates.length
    · rw [if_pos h, if_pos (hroom.1 h)]
      exact ⟨rfl, (share_putConnection ns s _ _ _ _).symm⟩
    · rw [if_neg h, if_neg fun h' => h (hroom.2 h')]
      exact ⟨rfl, rfl⟩
  others v hv t := by
    rintro s rfl
    rw [run_putConnection]
    split
    · exact share_putConnection_of_ne ns s hv hk _ _
    · rfl
  sized := by
    rintro s ⟨hb, hp⟩
    rw [run_putConnection]
    split
    · exact ⟨hb, (List.length_set ..).trans hp⟩
    · exact ⟨hb, hp⟩

end Local

/-! ### Operations on all wells -/

/-- Whether an attempt does, from a state, for each well what a part of it does from the share of the well: it fails
only if a part fails, and if it succeeds, each part succeeds with a view of its value and leaves the share of what it
leaves. -/
structure SeparatesAt (ns : List Nat) (s : FlowState α) (act : Attempt α (FlowState α) β)
    (part : Nat → Attempt α (FlowState α) β) (view : Nat → β → β) : Prop where
  ok : ∀ b t, act s = (.ok b, t) →
    t.Sized ns ∧ ∀ w < ns.length, part w (s.share ns w) = (.ok (view w b), t.share ns w)
  error : ∀ e t, act s = (.error e, t) → ∃ w < ns.length, ∃ e t, part w (s.share ns w) = (.error e, t)

namespace SeparatesAt

variable {view : Nat → β → β}

theorem ok_iff {act : Attempt α (FlowState α) β} {part : Nat → Attempt α (FlowState α) β}
    (h : SeparatesAt ns s act part view) :
    (∃ b t, act s = (.ok b, t)) ↔ ∀ w < ns.length, ∃ b t, part w (s.share ns w) = (.ok b, t) := by
  constructor
  · rintro ⟨b, t, hb⟩ w hw
    exact ⟨_, _, (h.ok b t hb).2 w hw⟩
  · intro hparts
    rcases hact : act s with ⟨e | b, t⟩
    · obtain ⟨w, hw, e', t', he⟩ := h.error e t hact
      obtain ⟨b, t'', hb⟩ := hparts w hw
      rw [hb] at he
      cases he
    · exact ⟨b, t, rfl⟩

theorem of_ok {act : Attempt α (FlowState α) β} {part : Nat → Attempt α (FlowState α) β} {b : β} {t : FlowState α}
    (h : act s = (.ok b, t)) (ht : t.Sized ns)
    (hpart : ∀ w < ns.length, part w (s.share ns w) = (.ok (view w b), t.share ns w)) :
    SeparatesAt ns s act part view where
  ok b' t' h' := by
    rw [h] at h'
    cases h'
    exact ⟨ht, hpart⟩
  error e t' h' := by
    rw [h] at h'
    cases h'

theorem pure (hs : s.Sized ns) {b : β} {b₀ : Nat → β} (hb : ∀ w < ns.length, b₀ w = view w b) :
    SeparatesAt ns s (pure b : Attempt α (FlowState α) β) (fun w => pure (b₀ w)) view :=
  of_ok rfl hs fun w hw => by rw [run_pure, hb w hw]

theorem get_bind {f : FlowState α → Attempt α (FlowState α) β} {g : Nat → FlowState α → Attempt α (FlowState α) β}
    (h : SeparatesAt ns s (f s) (fun w => g w (s.share ns w)) view) :
    SeparatesAt ns s (get >>= f) (fun w => get >>= g w) view := ⟨h.ok, h.error⟩

/-- What follows goes on from the state and the value that the first attempt has left. -/
theorem bind {view' : Nat → δ → δ} {x : Attempt α (FlowState α) β} {x₀ : Nat → Attempt α (FlowState α) β}
    {f : β → Attempt α (FlowState α) δ} {g : Nat → β → Attempt α (FlowState α) δ} (hx : SeparatesAt ns s x x₀ view)
    (hf : ∀ b t, x s = (.ok b, t) → t.Sized ns → SeparatesAt ns t (f b) (fun w => g w (view w b)) view') :
    SeparatesAt ns s (x >>= f) (fun w => x₀ w >>= g w) view' := by
  rcases hxs : x s with ⟨e | b, t⟩
  · obtain ⟨w, hw, e', t', hw'⟩ := hx.error e t hxs
    refine ⟨fun d u h => ?_, fun _ _ _ => ⟨w, hw, e', t', ?_⟩⟩
    · rw [run_bind, hxs] at h
      cases h
    · rw [run_bind, hw']
  · obtain ⟨ht, hparts⟩ := hx.ok b t hxs
    have hrest := hf b t hxs ht
    have hrun : (x >>= f) s = f b t := by rw [run_bind, hxs]
    have hpart (w : Nat) (hw : w < ns.length) :
        (x₀ w >>= g w) (s.share ns w) = g w (view w b) (t.share ns w) := by rw [run_bind, hparts w hw]
    refine ⟨fun d u h => ?_, fun e u h => ?_⟩
    · obtain ⟨hu, hok⟩ := hrest.ok d u (hrun ▸ h)
      exact ⟨hu, fun w hw => (hpart w hw).trans (hok w hw)⟩
    · obtain ⟨w, hw, e', t', h'⟩ := hrest.error e u (hrun ▸ h)
      exact ⟨w, hw, e', t', (hpart w hw).trans h'⟩

theorem congr {act act' : Attempt α (FlowState α) β} {part part' : Nat → Attempt α (FlowState α) β}
    (h : SeparatesAt ns s act' part' view) (hact : act s = act' s)
    (hpart : ∀ w < ns.length, part w (s.share ns w) = part' w (s.share ns w)) : SeparatesAt ns s act part view where
  ok b t hb := by
    obtain ⟨ht, hok⟩ := h.ok b t (hact ▸ hb)
    exact ⟨ht, fun w hw => (hpart w hw).trans (hok w hw)⟩
  error e t he := by
    obtain ⟨w, hw, e', t', h'⟩ := h.error e t (hact ▸ he)
    exact ⟨w, hw, e', t', (hpart w hw).trans h'⟩

/-- Outcomes, one for each well. -/
theorem outcomes (hs : s.Sized ns) {τ : Type} {f : τ → Outcome α δ} {f₀ : Nat → τ → Outcome α δ} {xs : List τ}
    {xs₀ : Nat → List τ} (hlen : xs.length = ns.length)
    (h : ∀ w x, xs[w]? = some x → ∃ x₀, xs₀ w = [x₀] ∧ f₀ w x₀ = f x) :
    SeparatesAt ns s (liftM (xs.mapM f)) (fun w => liftM ((xs₀ w).mapM (f₀ w))) (fun w ds => window w 1 ds) := by
  have hpart {w : Nat} {x : τ} (hx : xs[w]? = some x) : (xs₀ w).mapM (f₀ w) = (f x).map ([·]) := by
    obtain ⟨x₀, hx₀, hf⟩ := h w x hx
    rw [hx₀, List.mapM_cons, hf]
    cases f x <;> rfl
  refine ⟨fun ds t hds => ?_, fun e t hds => ?_⟩
  · rw [run_outcome, Prod.mk.injEq] at hds
    obtain ⟨hds, rfl⟩ := hds
    have hlen' := (Outcome.mapM_ok.1 hds).length_eq
    refine ⟨hs, fun w hw => ?_⟩
    obtain ⟨x, hx⟩ : ∃ x, xs[w]? = some x := ⟨_, List.getElem?_eq_getElem (hlen ▸ hw)⟩
    obtain ⟨d, hd⟩ : ∃ d, ds[w]? = some d := ⟨_, List.getElem?_eq_getElem (hlen' ▸ hlen ▸ hw)⟩
    rw [run_outcome, hpart hx, Outcome.ok_of_getElem? hds hx hd, window_one hd]
    rfl
  · rw [run_outcome, Prod.mk.injEq] at hds
    obtain ⟨w, x, hx, hf⟩ := Outcome.exists_error hds.1
    refine ⟨w, hlen ▸ (List.getElem?_eq_some_iff.1 hx).1, e, s.share ns w, ?_⟩
    rw [run_outcome, hpart hx, hf]
    rfl

theorem mapM_outcome (hs : s.Sized ns) {τ : Type} {f : τ → Outcome α δ} {f₀ : Nat → τ → Outcome α δ} {xs : List τ}
    {xs₀ : Nat → List τ} (hlen : xs.length = ns.length)
    (h : ∀ w x, xs[w]? = some x → ∃ x₀, xs₀ w = [x₀] ∧ f₀ w x₀ = f x) :
    SeparatesAt ns s (xs.mapM fun x => liftM (f x)) (fun w => (xs₀ w).mapM fun x => liftM (f₀ w x))
      (fun w ds => window w 1 ds) :=
  (outcomes hs hlen h).congr (run_mapM_outcome ..) fun _ _ => run_mapM_outcome ..

/-- What a traversal from the well `k` on does: at the wells that it goes through what is local to them, and nothing at
the others. -/
private theorem forM_from {f : δ → Attempt α (FlowState α) PUnit} {part : Nat → Attempt α (FlowState α) PUnit}
    {ds : List δ} {k : Nat} (h : ∀ i d, ds[i]? = some d → Local ns (k + i) (f d) (part (k + i))) (hs : s.Sized ns) :
    (∀ t, ds.forM f s = (.ok ⟨⟩, t) → t.Sized ns ∧ (∀ v < k, t.share ns v = s.share ns v) ∧
      ∀ i < ds.length, part (k + i) (s.share ns (k + i)) = (.ok ⟨⟩, t.share ns (k + i))) ∧
    ∀ e t, ds.forM f s = (.error e, t) → ∃ i < ds.length, ∃ e t, part (k + i) (s.share ns (k + i)) = (.error e, t) := by
  induction ds generalizing k s with
  | nil =>
    refine ⟨fun t ht => ?_, fun e t ht => nomatch ht⟩
    cases ht
    exact ⟨hs, fun _ _ => rfl, fun i hi => absurd hi (Nat.not_lt_zero i)⟩
  | cons d ds ih =>
    have hlocal := h 0 d rfl
    have hrest (i : Nat) (d' : δ) (hd : ds[i]? = some d') : Local ns (k + 1 + i) (f d') (part (k + 1 + i)) := by
      have h' := h (i + 1) d' hd
      rwa [Nat.add_comm i 1, ← Nat.add_assoc] at h'
    obtain ⟨ho, hk⟩ := hlocal.same s _ rfl
    rw [Nat.add_zero] at ho hk
    have hhead : part k (s.share ns k) = ((f d s).1, (f d s).2.share ns k) := Prod.ext ho.symm hk
    have hsized := hlocal.sized s hs
    have hothers (v : Nat) (hv : v ≠ k) : (f d s).2.share ns v = s.share ns v := hlocal.others v hv _ s rfl
    rw [List.forM_eq_forM, List.forM_cons]
    rcases hd : f d s with ⟨e | _, s₁⟩ <;> rw [hd] at hhead hsized hothers <;> dsimp only at hhead hothers
    · refine ⟨fun t ht => ?_, fun _ _ _ => ⟨0, Nat.succ_pos _, e, _, hhead⟩⟩
      rw [run_bind, hd] at ht
      cases ht
    -- the rest starts at the next well; the shares of the wells from there on are still those of `s`
    obtain ⟨hok, herror⟩ := ih hrest hsized
    have hrun : (f d >>= fun _ => ds.forM f) s = ds.forM f s₁ := by rw [run_bind, hd]
    have hshare (i : Nat) : s₁.share ns (k + 1 + i) = s.share ns (k + (i + 1)) := by
      rw [hothers _ (by omega), Nat.add_comm i 1, Nat.add_assoc]
    refine ⟨fun t ht => ?_, fun e t ht => ?_⟩
    · obtain ⟨ht', hbefore, hparts⟩ := hok t (hrun ▸ ht)
      refine ⟨ht', fun v hv => (hbefore v (by omega)).trans (hothers v (by omega)), fun i hi => ?_⟩
      cases i with
      | zero => rw [Nat.add_zero, hhead, hbefore k (Nat.lt_succ_self k)]
      | succ i =>
        have hi := hparts i (Nat.lt_of_succ_lt_succ hi)
        rwa [hshare, Nat.add_assoc, Nat.add_comm 1 i] at hi
    · obtain ⟨i, hi, e', t', hpart⟩ := herror e t (hrun ▸ ht)
      refine ⟨i + 1, Nat.succ_lt_succ hi, e', t', ?_⟩
      rwa [hshare, Nat.add_assoc, Nat.add_comm 1 i] at hpart

/-- A traversal of the wells that is local at each of them. -/
theorem forM (hs : s.Sized ns) {f : δ → Attempt α (FlowState α) PUnit} {part : Nat → Attempt α (FlowState α) PUnit}
    {ds : List δ} (hlen : ds.length = ns.length) (h : ∀ w d, ds[w]? = some d → Local ns w (f d) (part w)) :
    SeparatesAt ns s (ds.forM f) part fun _ u => u := by
  obtain ⟨hok, herror⟩ := forM_from (k := 0) (fun i d hd => (Nat.zero_add i).symm ▸ h i d hd) hs
  simp only [Nat.zero_add, hlen] at hok herror
  exact ⟨fun _ t ht => ⟨(hok t ht).1, (hok t ht).2.2⟩, herror⟩

end SeparatesAt

end FlowState

end BlackOilWells
