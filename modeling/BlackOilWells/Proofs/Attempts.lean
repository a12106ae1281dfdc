import Mathlib.Data.List.Forall2
import BlackOilWells.Well.Error

/-!
# Running attempts

What an `Attempt` does to a state, one lemma for each way of building it.  A sequence stops at the first fault and
keeps the state that the fault leaves (`Attempt.run_bind`); a sequence that succeeds has succeeded at every part
(`Attempt.bind_ok`).

Two properties of attempts are closed under sequences and traversals: to keep a property of the state, also where the
attempt stops (`Attempt.Maintains`), and to do the same after a change of the state that it does not look at
(`Attempt.Commutes`).
-/

namespace BlackOilWells

variable {α σ τ β δ : Type}

/-! ### Outcomes -/

theorem Outcome.bind_ok {ε : Type} {x : Except ε β} {f : β → Except ε δ} {b : δ} :
    x >>= f = .ok b ↔ ∃ a, x = .ok a ∧ f a = .ok b := by
  cases x with
  | error e => exact ⟨nofun, nofun⟩
  | ok a => exact ⟨fun h => ⟨a, rfl, h⟩, fun ⟨_, h, hf⟩ => by cases h; exact hf⟩

theorem Outcome.map_ok {ε : Type} {x : Except ε β} {f : β → δ} {d : δ} :
    x.map f = .ok d ↔ ∃ b, x = .ok b ∧ f b = d := by
  cases x with
  | error e => exact ⟨nofun, nofun⟩
  | ok b =>
    constructor
    · exact fun h => ⟨b, rfl, Except.ok.inj h⟩
    · rintro ⟨_, h, hf⟩
      cases h
      exact congrArg Except.ok hf

theorem Outcome.map_bind {x : Outcome α β} {f : β → Outcome α δ} {g : δ → τ} :
    (x >>= f).map g = x >>= fun b => (f b).map g := by
  cases x <;> rfl

theorem Outcome.need_ok {b : Option β} {a : β} : (Outcome.need b : Outcome α β) = .ok a ↔ b = some a := by
  cases b with
  | none => exact ⟨nofun, nofun⟩
  | some b => exact ⟨fun h => congrArg some (Except.ok.inj h), fun h => congrArg Except.ok (Option.some.inj h)⟩

theorem Outcome.ofFluid_ok {x : Except FluidError β} {b : β} : (Outcome.ofFluid x : Outcome α β) = .ok b ↔ x = .ok b := by
  cases x with
  | error e => exact ⟨nofun, nofun⟩
  | ok a => exact ⟨fun h => by cases h; rfl, fun h => by cases h; rfl⟩

theorem Outcome.ok_of_toOption {ε : Type} {x : Except ε β} {b : β} (h : x.toOption = some b) : x = .ok b := by
  cases x with
  | error e => cases h
  | ok a => exact congrArg Except.ok (Option.some.inj h)

theorem Outcome.exists_ok_of_isSome {ε : Type} {x : Except ε β} (h : x.toOption.isSome = true) : ∃ b, x = .ok b := by
  obtain ⟨b, hb⟩ := Option.isSome_iff_exists.1 h
  exact ⟨b, ok_of_toOption hb⟩

/-- A view of a result, read off the outcome. -/
theorem Outcome.view_of_ok {ε : Type} {x : Except ε β} {b : β} (hx : x = .ok b) (f : β → δ) {d : δ}
    (h : x.toOption.map f = some d) : f b = d := by
  rw [hx] at h
  exact Option.some.inj h

/-- A traversal succeeds exactly if it does at every member. -/
theorem Outcome.mapM_ok {ε : Type} {f : β → Except ε δ} {bs : List β} {ds : List δ} :
    bs.mapM f = .ok ds ↔ List.Forall₂ (fun b d => f b = .ok d) bs ds := by
  induction bs generalizing ds with
  | nil =>
    rw [List.mapM_nil, List.forall₂_nil_left_iff]
    exact ⟨fun h => by cases h; rfl, fun h => by rw [h]; rfl⟩
  | cons b bs ih =>
    rw [List.mapM_cons, Outcome.bind_ok]
    constructor
    · rintro ⟨d, hd, h⟩
      obtain ⟨ds, hds, h⟩ := Outcome.bind_ok.1 h
      cases h
      exact .cons hd (ih.1 hds)
    · rintro (_ | ⟨hd, hds⟩)
      exact ⟨_, hd, Outcome.bind_ok.2 ⟨_, ih.2 hds, rfl⟩⟩

theorem Outcome.ok_of_mem {f : β → Outcome α δ} {bs : List β} {ds : List δ} (h : bs.mapM f = .ok ds) {b : β}
    (hb : b ∈ bs) : ∃ d, f b = .ok d := by
  obtain ⟨i, hi, rfl⟩ := List.mem_iff_getElem.1 hb
  obtain ⟨hlen, hall⟩ := List.forall₂_iff_get.1 (Outcome.mapM_ok.1 h)
  exact ⟨_, hall i hi (hlen ▸ hi)⟩

theorem Outcome.exists_of_mem_ok {ε : Type} {f : β → Except ε δ} {bs : List β} {ds : List δ} (h : bs.mapM f = .ok ds)
    {d : δ} (hd : d ∈ ds) : ∃ b ∈ bs, f b = .ok d := by
  obtain ⟨i, hi, rfl⟩ := List.mem_iff_getElem.1 hd
  obtain ⟨hlen, hall⟩ := List.forall₂_iff_get.1 (Outcome.mapM_ok.1 h)
  exact ⟨_, List.getElem_mem (hlen ▸ hi), hall i (hlen ▸ hi) hi⟩

theorem Outcome.forM_ok {ε : Type} {f : β → Except ε Unit} {bs : List β} (h : bs.forM f = .ok ⟨⟩) {b : β}
    (hb : b ∈ bs) : f b = .ok ⟨⟩ := by
  induction bs with
  | nil => exact absurd hb List.not_mem_nil
  | cons c bs ih =>
    rw [List.forM_eq_forM, List.forM_cons] at h
    obtain ⟨_, hc, h⟩ := Outcome.bind_ok.1 h
    rcases List.mem_cons.1 hb with rfl | hb
    · exact hc
    · exact ih h hb

theorem Outcome.forM_of_ok {ε : Type} {f : β → Except ε Unit} {bs : List β} (h : ∀ b ∈ bs, f b = .ok ⟨⟩) :
    bs.forM f = .ok ⟨⟩ := by
  induction bs with
  | nil => rfl
  | cons b bs ih =>
    rw [List.forM_eq_forM, List.forM_cons]
    exact Outcome.bind_ok.2 ⟨_, h b (List.mem_cons_self ..), ih fun c hc => h c (List.mem_cons_of_mem _ hc)⟩

/-- A traversal that fails, does so at some place. -/
theorem Outcome.exists_error {f : β → Outcome α δ} {bs : List β} {e : Fault α} (h : bs.mapM f = .error e) :
    ∃ i : Nat, ∃ b, bs[i]? = some b ∧ f b = .error e := by
  induction bs with
  | nil => cases h
  | cons b bs ih =>
    rw [List.mapM_cons] at h
    cases hb : f b with
    | error e' =>
      rw [hb] at h
      cases h
      exact ⟨0, b, rfl, hb⟩
    | ok d =>
      cases hbs : bs.mapM f with
      | error e' =>
        rw [hb, hbs] at h
        cases h
        obtain ⟨i, b', hi, hb'⟩ := ih hbs
        exact ⟨i + 1, b', hi, hb'⟩
      | ok ds =>
        rw [hb, hbs] at h
        cases h

/-- A traversal that succeeds, at a place. -/
theorem Outcome.ok_of_getElem? {f : β → Outcome α δ} {bs : List β} {ds : List δ} (h : bs.mapM f = .ok ds) {i : Nat}
    {b : β} {d : δ} (hb : bs[i]? = some b) (hd : ds[i]? = some d) : f b = .ok d := by
  obtain ⟨hi, rfl⟩ := List.getElem?_eq_some_iff.1 hb
  obtain ⟨hi', rfl⟩ := List.getElem?_eq_some_iff.1 hd
  exact (List.forall₂_iff_get.1 (Outcome.mapM_ok.1 h)).2 i hi hi'

theorem Outcome.mem_mapM_iff {ε : Type} {f : β → Except ε δ} {bs : List β} {ds : List δ} (h : bs.mapM f = .ok ds)
    {d : δ} : d ∈ ds ↔ ∃ b ∈ bs, f b = .ok d := by
  constructor
  · exact Outcome.exists_of_mem_ok h
  · rintro ⟨b, hb, hd⟩
    obtain ⟨i, hi, rfl⟩ := List.mem_iff_getElem.1 hb
    obtain ⟨hlen, hall⟩ := List.forall₂_iff_get.1 (Outcome.mapM_ok.1 h)
    have hget : f bs[i] = .ok ds[i] := hall i hi (hlen ▸ hi)
    rw [← Except.ok.inj (hget.symm.trans hd)]
    exact List.getElem_mem _

/-- A traversal succeeds if it does at each member. -/
theorem Outcome.exists_mapM {ε : Type} {f : β → Except ε δ} {bs : List β} (h : ∀ b ∈ bs, ∃ d, f b = .ok d) :
    ∃ ds, bs.mapM f = .ok ds := by
  induction bs with
  | nil => exact ⟨[], rfl⟩
  | cons b bs ih =>
    obtain ⟨d, hd⟩ := h b (List.mem_cons_self ..)
    obtain ⟨ds, hds⟩ := ih fun c hc => h c (List.mem_cons_of_mem _ hc)
    exact ⟨d :: ds, Outcome.mapM_ok.2 (.cons hd (Outcome.mapM_ok.1 hds))⟩

theorem Outcome.mapM_map {f : β → Outcome α δ} {g : β → δ} {bs : List β} (h : ∀ b ∈ bs, f b = .ok (g b)) :
    bs.mapM f = .ok (bs.map g) := by
  rw [Outcome.mapM_ok, List.forall₂_map_right_iff, List.forall₂_same]
  exact h

/-- What a traversal keeps of every member, it keeps of the list. -/
theorem Outcome.map_of_mapM {f : β → Outcome α δ} {g : β → τ} {g' : δ → τ} {bs : List β} {ds : List δ}
    (hf : ∀ b d, f b = .ok d → g' d = g b) (h : bs.mapM f = .ok ds) : ds.map g' = bs.map g := by
  have hm : List.Forall₂ (· = ·) (bs.map g) (ds.map g') := by
    rw [List.forall₂_map_left_iff, List.forall₂_map_right_iff]
    exact (Outcome.mapM_ok.1 h).imp fun b d hd => (hf b d hd).symm
  rw [List.forall₂_eq_eq_eq] at hm
  exact hm.symm

theorem Outcome.map_of_mapM_zipIdx {f : β × Nat → Outcome α δ} {g : β → τ} {g' : δ → τ} {bs : List β} {ds : List δ}
    (hf : ∀ b i d, f (b, i) = .ok d → g' d = g b) (h : bs.zipIdx.mapM f = .ok ds) : ds.map g' = bs.map g := by
  rw [Outcome.map_of_mapM (fun p d => hf p.1 p.2 d) h, ← Function.comp_def, ← List.map_map, List.zipIdx_map_fst]

/-- A numbered traversal, place by place. -/
theorem Outcome.mapM_zipIdx {f : β × Nat → Outcome α δ} {bs : List β} {ds : List δ} : bs.zipIdx.mapM f = .ok ds ↔
    bs.length = ds.length ∧ ∀ i (h : i < bs.length) (h' : i < ds.length), f (bs[i], i) = .ok ds[i] := by
  rw [Outcome.mapM_ok, List.forall₂_iff_get]
  simp only [List.length_zipIdx, List.get_eq_getElem, List.getElem_zipIdx, Nat.zero_add]

/-- The results of a numbered traversal, member by member. -/
theorem Outcome.mapM_zipIdx_of_mem {f : β × Nat → Outcome α δ} {bs : List β} {ds : List δ} {p : (β × δ) × Nat}
    (h : bs.zipIdx.mapM f = .ok ds) (hp : p ∈ (bs.zip ds).zipIdx) : p.1.1 ∈ bs ∧ f (p.1.1, p.2) = .ok p.1.2 := by
  obtain ⟨hlen, hf⟩ := Outcome.mapM_zipIdx.1 h
  obtain ⟨i, hi, rfl⟩ := List.mem_iff_getElem.1 hp
  rw [List.length_zipIdx, List.length_zip] at hi
  have hb : i < bs.length := by omega
  have hd : i < ds.length := by omega
  rw [List.getElem_zipIdx, List.getElem_zip, Nat.zero_add]
  exact ⟨List.getElem_mem hb, hf i hb hd⟩

section

variable {β' δ' ε ε' : Type} {φ : β → β'} {bs : List β}

/-- A traversal succeeds wherever another one does, with results that correspond. -/
theorem Outcome.mapM_of_mapM {f : β → Except ε δ} {g : β → Except ε' δ'} {R : δ → δ' → Prop} {ds : List δ}
    (hf : bs.mapM f = .ok ds) (h : ∀ b ∈ bs, ∀ d, f b = .ok d → ∃ e, g b = .ok e ∧ R d e) :
    ∃ es, bs.mapM g = .ok es ∧ List.Forall₂ R ds es := by
  induction bs generalizing ds with
  | nil =>
    cases hf
    exact ⟨[], rfl, .nil⟩
  | cons b bs ih =>
    rw [List.mapM_cons] at hf
    obtain ⟨d, hd, hf⟩ := Outcome.bind_ok.1 hf
    obtain ⟨ds', hds, hf⟩ := Outcome.bind_ok.1 hf
    cases hf
    obtain ⟨e, he, hr⟩ := h b (List.mem_cons_self ..) d hd
    obtain ⟨es, hes, hrs⟩ := ih hds fun b' hb' => h b' (List.mem_cons_of_mem b hb')
    rw [List.mapM_cons]
    exact ⟨e :: es, Outcome.bind_ok.2 ⟨e, he, Outcome.bind_ok.2 ⟨es, hes, rfl⟩⟩, .cons hr hrs⟩

theorem Outcome.mapM_map_ok {f : β → Except ε δ} {g : β' → Except ε' δ'} {ψ : δ → δ'} {ds : List δ}
    (h : ∀ b ∈ bs, ∀ d, f b = .ok d → g (φ b) = .ok (ψ d)) (hf : bs.mapM f = .ok ds) :
    (bs.map φ).mapM g = .ok (ds.map ψ) := by
  obtain ⟨es, hes, hall⟩ := Outcome.mapM_of_mapM (g := g ∘ φ) (R := fun d e => ψ d = e) hf fun b hb d hd =>
    ⟨_, h b hb d hd, rfl⟩
  rw [← List.forall₂_map_left_iff, List.forall₂_eq_eq_eq] at hall
  rw [List.mapM_map, hes, hall]

theorem Outcome.allM_map {f : β → Except ε Bool} {g : β' → Except ε' Bool} {all : Bool}
    (h : ∀ b ∈ bs, ∀ x, f b = .ok x → g (φ b) = .ok x) (hf : bs.allM f = .ok all) : (bs.map φ).allM g = .ok all := by
  induction bs with
  | nil =>
    cases hf
    rfl
  | cons b bs ih =>
    rw [List.allM_cons] at hf
    obtain ⟨x, hx, hf⟩ := Outcome.bind_ok.1 hf
    rw [List.map_cons, List.allM_cons]
    refine Outcome.bind_ok.2 ⟨x, h b (List.mem_cons_self ..) x hx, ?_⟩
    cases x with
    | false =>
      cases hf
      rfl
    | true => exact ih (fun b' hb' => h b' (List.mem_cons_of_mem b hb')) hf

theorem Outcome.ok_of_allM {f : β → Except ε Bool} (h : bs.allM f = .ok true) {b : β} (hb : b ∈ bs) :
    f b = .ok true := by
  induction bs with
  | nil => exact absurd hb List.not_mem_nil
  | cons c bs ih =>
    rw [List.allM] at h
    obtain ⟨test, hc, h⟩ := Outcome.bind_ok.1 h
    cases test with
    | false => cases h
    | true =>
      rcases List.mem_cons.1 hb with rfl | hb
      · exact hc
      · exact ih h hb

/-- A test of what a traversal finds, if it does not fail. -/
theorem Outcome.allM_of_mapM {f : β → Except ε δ} {ds : List δ} (hf : bs.mapM f = .ok ds) (test : δ → Bool) :
    (bs.allM fun b => do return test (← f b)) = .ok (ds.all test) := by
  induction bs generalizing ds with
  | nil =>
    cases hf
    rfl
  | cons b bs ih =>
    rw [List.mapM_cons] at hf
    obtain ⟨d, hd, hf⟩ := Outcome.bind_ok.1 hf
    obtain ⟨ds', hds, hf⟩ := Outcome.bind_ok.1 hf
    cases hf
    rw [List.allM_cons, hd]
    change (if test d then _ else _) = _
    rw [List.all_cons]
    cases test d with
    | false => rfl
    | true => exact ih hds

end

/-- Whether an outcome stops for no other faults than given ones. -/
def Outcome.Stops (F : Fault α → Prop) (o : Outcome α β) : Prop := ∀ e, o = .error e → F e

namespace Outcome.Stops

variable {F : Fault α → Prop}

theorem ok (b : β) : Stops F (.ok b) := fun _ h => nomatch h

/-- Every outcome stops for some fault, if it stops. -/
theorem any (o : Outcome α β) : Stops (fun _ => True) o := fun _ _ => trivial

theorem error {e : Fault α} (h : F e) : Stops F (.error e : Outcome α β) := fun _ he => by
  cases he
  exact h

theorem need {b : Option β} (h : b = none → F .outOfRange) : Stops F (Outcome.need b) := by
  cases b with
  | none => exact .error (h rfl)
  | some b => exact .ok b

theorem ite {c : Prop} [Decidable c] {x y : Outcome α β} (hx : c → Stops F x) (hy : ¬c → Stops F y) :
    Stops F (if c then x else y) := by
  split
  · exact hx ‹c›
  · exact hy ‹¬c›

/-- What follows may use the value. -/
theorem bind {x : Outcome α β} {f : β → Outcome α δ} (hx : Stops F x) (hf : ∀ b, x = .ok b → Stops F (f b)) :
    Stops F (x >>= f) := by
  cases x with
  | error e => exact .error (hx e rfl)
  | ok b => exact hf b rfl

theorem map {x : Outcome α β} {f : β → δ} (hx : Stops F x) : Stops F (f <$> x) := by
  cases x with
  | error e => exact .error (hx e rfl)
  | ok b => exact .ok (f b)

theorem mapM {f : β → Outcome α δ} {bs : List β} (h : ∀ b ∈ bs, Stops F (f b)) : Stops F (bs.mapM f) := by
  induction bs with
  | nil => exact .ok []
  | cons b bs ih =>
    rw [List.mapM_cons]
    refine (h b (List.mem_cons_self ..)).bind fun d _ => ?_
    exact bind (ih fun c hc => h c (List.mem_cons_of_mem _ hc)) fun ds _ => .ok _

theorem forM {f : β → Outcome α PUnit} {bs : List β} (h : ∀ b ∈ bs, Stops F (f b)) : Stops F (bs.forM f) := by
  induction bs with
  | nil => exact .ok _
  | cons b bs ih =>
    rw [List.forM_eq_forM, List.forM_cons]
    exact (h b (List.mem_cons_self ..)).bind fun _ _ => ih fun c hc => h c (List.mem_cons_of_mem _ hc)

theorem foldlM {f : δ → β → Outcome α δ} {bs : List β} (h : ∀ d b, Stops F (f d b)) {d : δ} :
    Stops F (bs.foldlM f d) := by
  induction bs generalizing d with
  | nil => exact .ok d
  | cons b bs ih =>
    rw [List.foldlM_cons]
    exact (h d b).bind fun _ _ => ih

theorem allM {f : β → Outcome α Bool} {bs : List β} (h : ∀ b ∈ bs, Stops F (f b)) : Stops F (bs.allM f) := by
  induction bs with
  | nil => exact .ok true
  | cons b bs ih =>
    refine (h b (List.mem_cons_self ..)).bind fun c _ => ?_
    cases c with
    | false => exact .ok false
    | true => exact ih fun c hc => h c (List.mem_cons_of_mem _ hc)

end Outcome.Stops

namespace Attempt

/-! ### The parts of an attempt -/

@[simp] theorem run_pure (a : β) (s : σ) : (pure a : Attempt α σ β) s = (.ok a, s) := rfl

@[simp] theorem run_throw (e : Fault α) (s : σ) : (throw e : Attempt α σ β) s = (.error e, s) := rfl

@[simp] theorem run_get (s : σ) : (get : Attempt α σ σ) s = (.ok s, s) := rfl

@[simp] theorem run_set (t s : σ) : (set t : Attempt α σ PUnit) s = (.ok ⟨⟩, t) := rfl

@[simp] theorem run_modify (f : σ → σ) (s : σ) : (modify f : Attempt α σ PUnit) s = (.ok ⟨⟩, f s) := rfl

@[simp] theorem run_outcome (o : Outcome α β) (s : σ) : (liftM o : Attempt α σ β) s = (o, s) := rfl

@[simp] theorem lift_id (act : Attempt α σ β) : (lift act : Attempt α σ β) = act := rfl

theorem run_ok_of_toOption {x : Outcome α β × σ} {b : β} (h : x.1.toOption = some b) : x = (.ok b, x.2) :=
  Prod.ext (Outcome.ok_of_toOption h) rfl

/-! ### Sequences -/

theorem run_bind (x : Attempt α σ β) (f : β → Attempt α σ δ) (s : σ) :
    (x >>= f) s = match x s with
      | (.ok a, t) => f a t
      | (.error e, t) => (.error e, t) := by
  change ExceptT.bindCont f (x s).1 (x s).2 = _
  rcases x s with ⟨_ | _, t⟩ <;> rfl

theorem bind_of_ok {x : Attempt α σ β} {f : β → Attempt α σ δ} {s t : σ} {b : β} (h : x s = (.ok b, t)) :
    (x >>= f) s = f b t := by
  rw [run_bind, h]

theorem bind_ok {x : Attempt α σ β} {f : β → Attempt α σ δ} {s u : σ} {b : δ} :
    (x >>= f) s = (.ok b, u) ↔ ∃ a t, x s = (.ok a, t) ∧ f a t = (.ok b, u) := by
  rw [run_bind]
  rcases x s with ⟨_ | a, t⟩
  · exact ⟨nofun, nofun⟩
  · exact ⟨fun h => ⟨a, t, rfl, h⟩, fun ⟨_, _, h, hf⟩ => by cases h; exact hf⟩

/-- A sequence that stops has stopped at its first part, or at what follows. -/
theorem bind_error {x : Attempt α σ β} {f : β → Attempt α σ δ} {s u : σ} {e : Fault α} :
    (x >>= f) s = (.error e, u) ↔ x s = (.error e, u) ∨ ∃ a t, x s = (.ok a, t) ∧ f a t = (.error e, u) := by
  rw [run_bind]
  rcases x s with ⟨e' | a, t⟩
  · constructor
    · intro h
      cases h
      exact .inl rfl
    · rintro (h | ⟨_, _, h, -⟩)
      · cases h
        rfl
      · cases h
  · constructor
    · exact fun h => .inr ⟨a, t, rfl, h⟩
    · rintro (h | ⟨_, _, h, hf⟩)
      · cases h
      · cases h
        exact hf

theorem run_get_bind (f : σ → Attempt α σ δ) (s : σ) : ((get : Attempt α σ σ) >>= f) s = f s s := rfl

theorem run_outcome_bind (o : Outcome α β) (f : β → Attempt α σ δ) (s : σ) :
    ((liftM o : Attempt α σ β) >>= f) s = match o with
      | .ok b => f b s
      | .error e => (.error e, s) := by
  rw [run_bind, run_outcome]
  cases o <;> rfl

theorem outcome_bind_ok {o : Outcome α β} {f : β → Attempt α σ δ} {s t : σ} {d : δ} :
    ((liftM o : Attempt α σ β) >>= f) s = (.ok d, t) ↔ ∃ b, o = .ok b ∧ f b s = (.ok d, t) := by
  rw [run_outcome_bind]
  cases o with
  | error e => exact ⟨nofun, nofun⟩
  | ok b => exact ⟨fun h => ⟨b, rfl, h⟩, fun ⟨_, h, hf⟩ => by cases h; exact hf⟩

theorem outcome_bind_error {o : Outcome α β} {f : β → Attempt α σ δ} {s t : σ} {e : Fault α} :
    ((liftM o : Attempt α σ β) >>= f) s = (.error e, t) ↔
      (o = .error e ∧ t = s) ∨ ∃ b, o = .ok b ∧ f b s = (.error e, t) := by
  rw [bind_error, run_outcome]
  constructor
  · rintro (h | ⟨b, _, h, hf⟩)
    · cases h
      exact .inl ⟨rfl, rfl⟩
    · cases h
      exact .inr ⟨b, rfl, hf⟩
  · rintro (⟨rfl, rfl⟩ | ⟨b, rfl, hf⟩)
    · exact .inl rfl
    · exact .inr ⟨b, s, rfl, hf⟩

theorem need_bind_error {b : Option β} {f : β → Attempt α σ δ} {s t : σ} {e : Fault α}
    (h : (Attempt.need b >>= f : Attempt α σ δ) s = (.error e, t)) :
    t = s ∨ ∃ a, b = some a ∧ f a s = (.error e, t) := by
  cases b with
  | none =>
    cases h
    exact .inl rfl
  | some b => exact .inr ⟨b, rfl, h⟩

theorem need_bind_ok {b : Option β} {f : β → Attempt α σ δ} {s t : σ} {d : δ} :
    (Attempt.need b >>= f : Attempt α σ δ) s = (.ok d, t) ↔ ∃ a, b = some a ∧ f a s = (.ok d, t) := by
  cases b with
  | none => exact ⟨nofun, nofun⟩
  | some b => exact ⟨fun h => ⟨b, rfl, h⟩, fun ⟨_, h, hf⟩ => by cases h; exact hf⟩

/-- What follows a part that is left out under a condition. -/
theorem when_ok {c : Prop} [Decidable c] {x : Attempt α σ PUnit} {f : PUnit → Attempt α σ δ} {s u : σ} {d : δ}
    (h : (if c then x >>= f else f ⟨⟩) s = (.ok d, u)) :
    ∃ t, (if c then x s = (.ok ⟨⟩, t) else t = s) ∧ f ⟨⟩ t = (.ok d, u) := by
  by_cases hc : c
  · rw [if_pos hc] at h
    obtain ⟨_, t, hx, hf⟩ := bind_ok.1 h
    exact ⟨t, by rwa [if_pos hc], hf⟩
  · rw [if_neg hc] at h
    exact ⟨s, by rw [if_neg hc], h⟩

/-- A traversal of one member. -/
theorem forM_singleton (f : β → Attempt α σ PUnit) (b : β) : [b].forM f = f b := by
  rw [List.forM_eq_forM, List.forM_cons]
  exact bind_pure (f b)

/-- A traversal that stops has come to some member, past all members before it. -/
theorem forM_error {f : β → Attempt α σ PUnit} {bs : List β} {s t : σ} {e : Fault α}
    (h : bs.forM f s = (.error e, t)) : ∃ before b after u, bs = before ++ b :: after ∧
      before.forM f s = (.ok ⟨⟩, u) ∧ f b u = (.error e, t) := by
  induction bs generalizing s with
  | nil => cases h
  | cons b bs ih =>
    rw [List.forM_eq_forM, List.forM_cons] at h
    rcases bind_error.1 h with hb | ⟨⟨⟩, u, hb, hrest⟩
    · exact ⟨[], b, bs, s, rfl, rfl, hb⟩
    · obtain ⟨before, c, after, v, rfl, hbefore, hc⟩ := ih hrest
      refine ⟨b :: before, c, after, v, rfl, ?_, hc⟩
      rw [List.forM_eq_forM, List.forM_cons]
      exact bind_ok.2 ⟨⟨⟩, u, hb, hbefore⟩

/-- A traversal whose steps change nothing. -/
theorem forM_unchanged {f : β → Attempt α σ PUnit} {bs : List β} {s : σ} (h : ∀ b ∈ bs, f b s = (.ok ⟨⟩, s)) :
    bs.forM f s = (.ok ⟨⟩, s) := by
  induction bs with
  | nil => rfl
  | cons b bs ih =>
    rw [List.forM_eq_forM, List.forM_cons]
    have hrest : bs.forM f s = (.ok ⟨⟩, s) := ih fun c hc => h c (List.mem_cons_of_mem _ hc)
    exact bind_ok.2 ⟨⟨⟩, s, h b (List.mem_cons_self ..), hrest⟩

/-- A traversal that succeeds, place by place. -/
theorem forM_ok {f : β → Attempt α σ PUnit} {bs : List β} {I : Nat → σ → Prop} {s t : σ}
    (h : bs.forM f s = (.ok ⟨⟩, t)) (h0 : I 0 s)
    (hstep : ∀ (i : Nat) b u v, bs[i]? = some b → I i u → f b u = (.ok ⟨⟩, v) → I (i + 1) v) : I bs.length t := by
  induction bs generalizing I s with
  | nil =>
    cases h
    exact h0
  | cons b bs ih =>
    rw [List.forM_eq_forM, List.forM_cons] at h
    obtain ⟨_, s', hb, h⟩ := bind_ok.1 h
    have h1 : I 1 s' := hstep 0 b s s' rfl h0 hb
    exact ih (I := fun i => I (i + 1)) h h1 fun i c u v hc => hstep (i + 1) c u v hc

/-- A traversal that succeeds, where `g i` is what the step at the place `i` changes and no other step does. -/
theorem forM_places {f : β → Attempt α σ PUnit} {bs : List β} {g : Nat → σ → τ} {C : Nat → σ → Prop}
    {R : Nat → β → τ → τ → Prop} {s t : σ} (h : bs.forM f s = (.ok ⟨⟩, t)) (h0 : C 0 s)
    (hstep : ∀ i b u v, bs[i]? = some b → C i u → f b u = (.ok ⟨⟩, v) →
      C (i + 1) v ∧ R i b (g i u) (g i v) ∧ ∀ w, w ≠ i → g w v = g w u) :
    C bs.length t ∧ ∀ i b, bs[i]? = some b → R i b (g i s) (g i t) := by
  have hI : C bs.length t ∧ (∀ i b, i < bs.length → bs[i]? = some b → R i b (g i s) (g i t)) ∧
      ∀ i, bs.length ≤ i → g i t = g i s := by
    refine forM_ok (I := fun n u => C n u ∧ (∀ i b, i < n → bs[i]? = some b → R i b (g i s) (g i u)) ∧
      ∀ i, n ≤ i → g i u = g i s) h ⟨h0, fun i _ hi => absurd hi (Nat.not_lt_zero i), fun _ _ => rfl⟩ ?_
    intro i b u v hb hu hrun
    obtain ⟨hC, hbefore, hafter⟩ := hu
    obtain ⟨hC', hR, hothers⟩ := hstep i b u v hb hC hrun
    refine ⟨hC', fun j c hj hc => ?_, fun j hj => ?_⟩
    · by_cases hji : j = i
      · subst hji
        rw [hb, Option.some.injEq] at hc
        subst hc
        rwa [hafter j (Nat.le_refl j)] at hR
      · rw [hothers j hji]
        exact hbefore j c (by omega) hc
    · rw [hothers j (by omega)]
      exact hafter j (by omega)
  exact ⟨hI.1, fun i b hb => hI.2.1 i b (List.getElem?_eq_some_iff.1 hb).1 hb⟩

theorem run_tryCatch (x : Attempt α σ β) (f : Fault α → Attempt α σ β) (s : σ) :
    (tryCatch x f) s = match x s with
      | (.ok a, t) => (.ok a, t)
      | (.error e, t) => f e t := by
  change ExceptT.tryCatch x f s = _
  simp only [ExceptT.tryCatch, ExceptT.mk, bind, StateT.bind]
  rcases x s with ⟨_ | _, t⟩ <;> rfl

/-- A traversal by outcomes does not touch the state. -/
theorem run_mapM_outcome (f : β → Outcome α δ) (bs : List β) (s : σ) :
    (bs.mapM fun b => liftM (f b) : Attempt α σ (List δ)) s = (bs.mapM f, s) := by
  induction bs with
  | nil => rfl
  | cons b bs ih =>
    rw [List.mapM_cons, List.mapM_cons, run_bind, run_outcome]
    cases f b with
    | error e => rfl
    | ok d =>
      change (_ >>= _ : Attempt α σ (List δ)) s = _
      rw [run_bind, ih]
      cases bs.mapM f <;> rfl

/-! ### Properties of the state -/

/-- Whether an attempt keeps a property of the state. -/
def Maintains (P : σ → Prop) (act : Attempt α σ β) : Prop := ∀ s, P s → P (act s).2

namespace Maintains

variable {P : σ → Prop} {x : Attempt α σ β}

/-- The state after a run. -/
theorem of_eq (h : Maintains P x) {s t : σ} {o : Outcome α β} (hs : P s) (hx : x s = (o, t)) : P t := by
  have ht := h s hs
  rwa [hx] at ht

private theorem of_run_snd (h : ∀ s, (x s).2 = s) : Maintains P x := fun s hs => by
  rw [h]
  exact hs

theorem outcome (o : Outcome α β) : Maintains P (liftM o : Attempt α σ β) := of_run_snd fun _ => rfl

theorem pure (b : β) : Maintains P (pure b : Attempt α σ β) := of_run_snd fun _ => rfl

theorem throw (e : Fault α) : Maintains P (throw e : Attempt α σ β) := of_run_snd fun _ => rfl

theorem need (b : Option β) : Maintains P (Attempt.need b : Attempt α σ β) := of_run_snd fun _ => by cases b <;> rfl

theorem modify {f : σ → σ} (h : ∀ s, P s → P (f s)) : Maintains P (modify f : Attempt α σ PUnit) := h

theorem ite {c : Prop} [Decidable c] {y : Attempt α σ β} (hx : c → Maintains P x) (hy : ¬c → Maintains P y) :
    Maintains P (if c then x else y) := by
  split
  · exact hx ‹c›
  · exact hy ‹¬c›

theorem bind {f : β → Attempt α σ δ} (hx : Maintains P x) (hf : ∀ b, Maintains P (f b)) : Maintains P (x >>= f) := by
  intro s hs
  have ht := hx s hs
  rw [run_bind]
  rcases hxs : x s with ⟨_ | b, t⟩
  · rwa [hxs] at ht
  · rw [hxs] at ht
    exact hf b t ht

/-- What follows an outcome may use its result. -/
theorem outcome_bind {o : Outcome α β} {f : β → Attempt α σ δ} (h : ∀ b, o = .ok b → Maintains P (f b)) :
    Maintains P ((liftM o : Attempt α σ β) >>= f) := by
  intro s hs
  rw [run_outcome_bind]
  cases o with
  | error e => exact hs
  | ok b => exact h b rfl s hs

theorem need_bind {b : Option β} {f : β → Attempt α σ δ} (h : ∀ c, b = some c → Maintains P (f c)) :
    Maintains P (Attempt.need b >>= f) := by
  cases b with
  | none => exact fun _ hs => hs
  | some c => exact h c rfl

/-- What follows a traversal by outcomes may use its results. -/
theorem mapM_outcome_bind {f : β → Outcome α δ} {bs : List β} {g : List δ → Attempt α σ τ}
    (h : ∀ ds, bs.mapM f = .ok ds → Maintains P (g ds)) :
    Maintains P ((bs.mapM fun b => liftM (f b) : Attempt α σ (List δ)) >>= g) := by
  intro s hs
  rw [run_bind, run_mapM_outcome]
  cases hds : bs.mapM f with
  | error => exact hs
  | ok ds => exact h ds hds s hs

/-- A part that is left out under a condition. -/
theorem when {c : Prop} [Decidable c] {x : Attempt α σ PUnit} {f : PUnit → Attempt α σ δ} (hx : c → Maintains P x)
    (hf : ∀ u, Maintains P (f u)) : Maintains P (if c then x >>= f else f ⟨⟩) :=
  .ite (fun h => (hx h).bind hf) fun _ => hf _

/-- What follows a look at the state may use the property. -/
theorem get_bind {f : σ → Attempt α σ δ} (h : ∀ s, P s → P (f s s).2) : Maintains P (get >>= f) := h

theorem forM {f : β → Attempt α σ PUnit} {bs : List β} (h : ∀ b ∈ bs, Maintains P (f b)) :
    Maintains P (bs.forM f) := by
  induction bs with
  | nil => exact fun s hs => hs
  | cons b bs ih =>
    rw [List.forM_eq_forM, List.forM_cons]
    exact (h b (List.mem_cons_self ..)).bind fun _ => ih fun c hc => h c (List.mem_cons_of_mem _ hc)

end Maintains

/-- Whether an attempt keeps a property of the state and stops for no other faults than given ones. -/
def Keeps (P : σ → Prop) (F : Fault α → Prop) (act : Attempt α σ β) : Prop :=
  ∀ s, P s → P (act s).2 ∧ Outcome.Stops F (act s).1

namespace Keeps

variable {P : σ → Prop} {F : Fault α → Prop} {x : Attempt α σ β}

theorem maintains (h : Keeps P F x) : Maintains P x := fun s hs => (h s hs).1

/-- The state and the outcome after a run. -/
theorem of_eq (h : Keeps P F x) {s t : σ} {o : Outcome α β} (hs : P s) (hx : x s = (o, t)) : P t ∧ o.Stops F := by
  have ht := h s hs
  rwa [hx] at ht

theorem of_maintains (h : Maintains P x) : Keeps P (fun _ => True) x := fun s hs => ⟨h s hs, .any _⟩

theorem outcome {o : Outcome α β} (h : o.Stops F) : Keeps P F (liftM o : Attempt α σ β) := fun _ hs => ⟨hs, h⟩

theorem pure (b : β) : Keeps P F (pure b : Attempt α σ β) := fun _ hs => ⟨hs, .ok b⟩

theorem throw {e : Fault α} (h : F e) : Keeps P F (throw e : Attempt α σ β) := fun _ hs => ⟨hs, .error h⟩

theorem need {b : Option β} (h : b = none → F .outOfRange) : Keeps P F (Attempt.need b : Attempt α σ β) := by
  cases b with
  | none => exact .throw (h rfl)
  | some b => exact .pure b

theorem modify {f : σ → σ} (h : ∀ s, P s → P (f s)) : Keeps P F (modify f : Attempt α σ PUnit) :=
  fun s hs => ⟨h s hs, .ok _⟩

theorem ite {c : Prop} [Decidable c] {y : Attempt α σ β} (hx : c → Keeps P F x) (hy : ¬c → Keeps P F y) :
    Keeps P F (if c then x else y) := by
  split
  · exact hx ‹c›
  · exact hy ‹¬c›

/-- What follows a run. -/
theorem bind_run {f : β → Attempt α σ δ} {s : σ} (hx : P (x s).2 ∧ Outcome.Stops F (x s).1)
    (hf : ∀ b, Keeps P F (f b)) : P ((x >>= f) s).2 ∧ Outcome.Stops F ((x >>= f) s).1 := by
  rw [run_bind]
  rcases hxs : x s with ⟨e | b, t⟩
  · rw [hxs] at hx
    exact ⟨hx.1, .error (hx.2 e rfl)⟩
  · rw [hxs] at hx
    exact hf b t hx.1

theorem bind {f : β → Attempt α σ δ} (hx : Keeps P F x) (hf : ∀ b, Keeps P F (f b)) : Keeps P F (x >>= f) :=
  fun s hs => bind_run (hx s hs) hf

/-- A part that is left out under a condition. -/
theorem when {c : Prop} [Decidable c] {x : Attempt α σ PUnit} {f : PUnit → Attempt α σ δ} (hx : c → Keeps P F x)
    (hf : ∀ u, Keeps P F (f u)) : Keeps P F (if c then x >>= f else f ⟨⟩) :=
  .ite (fun h => (hx h).bind hf) fun _ => hf _

/-- What follows an outcome may use its value. -/
theorem outcome_bind {o : Outcome α β} {f : β → Attempt α σ δ} (h : o.Stops F) (hf : ∀ b, o = .ok b → Keeps P F (f b)) :
    Keeps P F ((liftM o : Attempt α σ β) >>= f) := by
  intro s hs
  rw [run_bind, run_outcome]
  cases o with
  | error e => exact ⟨hs, .error (h e rfl)⟩
  | ok b => exact hf b rfl s hs

/-- What follows a look at the state starts in that state. -/
theorem get_bind {f : σ → Attempt α σ δ} (h : ∀ s, P s → P (f s s).2 ∧ Outcome.Stops F (f s s).1) :
    Keeps P F (get >>= f) := h

theorem forM {f : β → Attempt α σ PUnit} {bs : List β} (h : ∀ b ∈ bs, Keeps P F (f b)) : Keeps P F (bs.forM f) := by
  induction bs with
  | nil => exact .pure _
  | cons b bs ih =>
    rw [List.forM_eq_forM, List.forM_cons]
    exact (h b (List.mem_cons_self ..)).bind fun _ => ih fun c hc => h c (List.mem_cons_of_mem _ hc)

/-! A property `P` that is kept up to a place from where on a weaker one, `Q`, is kept. -/

variable {Q : σ → Prop} (hPQ : ∀ s, P s → Q s)

include hPQ

omit hPQ in
theorem get_into {f : σ → Attempt α σ δ} {s : σ} (h : Q (f s s).2 ∧ Outcome.Stops F (f s s).1) :
    Q ((get >>= f) s).2 ∧ Outcome.Stops F ((get >>= f) s).1 := h

private theorem bind_run_into {f : β → Attempt α σ δ} {s : σ} (hx : P (x s).2 ∧ Outcome.Stops F (x s).1)
    (hf : ∀ b t, P t → Q (f b t).2 ∧ Outcome.Stops F (f b t).1) :
    Q ((x >>= f) s).2 ∧ Outcome.Stops F ((x >>= f) s).1 := by
  obtain ⟨ht, he⟩ := hx
  rw [run_bind]
  rcases hxs : x s with ⟨e | b, t⟩
  · rw [hxs] at ht he
    exact ⟨hPQ t ht, .error (he e rfl)⟩
  · rw [hxs] at ht
    exact hf b t ht

theorem bind_into {f : β → Attempt α σ δ} (hx : Keeps P F x)
    (hf : ∀ b t, P t → Q (f b t).2 ∧ Outcome.Stops F (f b t).1) {s : σ} (hs : P s) :
    Q ((x >>= f) s).2 ∧ Outcome.Stops F ((x >>= f) s).1 := bind_run_into hPQ (hx s hs) hf

theorem when_run_into {c : Prop} [Decidable c] {x : Attempt α σ PUnit} {f : PUnit → Attempt α σ δ} {s : σ} (hs : P s)
    (hx : c → P (x s).2 ∧ Outcome.Stops F (x s).1) (hf : ∀ t, P t → Q (f ⟨⟩ t).2 ∧ Outcome.Stops F (f ⟨⟩ t).1) :
    Q ((if c then x >>= f else f ⟨⟩) s).2 ∧ Outcome.Stops F ((if c then x >>= f else f ⟨⟩) s).1 := by
  by_cases hc : c
  · rw [if_pos hc]
    exact bind_run_into hPQ (hx hc) fun _ => hf
  · rw [if_neg hc]
    exact hf s hs

theorem when_into {c : Prop} [Decidable c] {x : Attempt α σ PUnit} {f : PUnit → Attempt α σ δ} (hx : c → Keeps P F x)
    (hf : ∀ t, P t → Q (f ⟨⟩ t).2 ∧ Outcome.Stops F (f ⟨⟩ t).1) {s : σ} (hs : P s) :
    Q ((if c then x >>= f else f ⟨⟩) s).2 ∧ Outcome.Stops F ((if c then x >>= f else f ⟨⟩) s).1 :=
  when_run_into hPQ hs (fun hc => hx hc s hs) hf

/-- What follows a traversal by outcomes may use its results. -/
theorem mapM_outcome_into {g : β → Outcome α δ} {bs : List β} {f : List δ → Attempt α σ τ}
    (hg : ∀ b ∈ bs, (g b).Stops F)
    (hf : ∀ ds, bs.mapM g = .ok ds → ∀ t, P t → Q (f ds t).2 ∧ Outcome.Stops F (f ds t).1) {s : σ} (hs : P s) :
    Q (((bs.mapM fun b => liftM (g b) : Attempt α σ (List δ)) >>= f) s).2 ∧
      Outcome.Stops F (((bs.mapM fun b => liftM (g b) : Attempt α σ (List δ)) >>= f) s).1 := by
  have hstops := Outcome.Stops.mapM hg
  rw [run_bind, run_mapM_outcome]
  cases hds : bs.mapM g with
  | error e => exact ⟨hPQ s hs, .error (hstops e hds)⟩
  | ok ds => exact hf ds hds s hs

end Keeps

/-- Whether a property holds after every success of an attempt. -/
def Establishes (P : σ → Prop) (act : Attempt α σ β) : Prop := ∀ s b t, act s = (.ok b, t) → P t

namespace Establishes

variable {P : σ → Prop} {x : Attempt α σ β}

theorem get_bind {f : σ → Attempt α σ δ} (hf : ∀ s, Establishes P (f s)) : Establishes P (get >>= f) :=
  fun s => hf s s

theorem bind {f : β → Attempt α σ δ} (hf : ∀ b, Establishes P (f b)) : Establishes P (x >>= f) := by
  intro s d u h
  obtain ⟨b, t, -, h⟩ := bind_ok.1 h
  exact hf b t d u h

/-- What follows may keep the property. -/
theorem bind_maintains {f : β → Attempt α σ δ} (hx : Establishes P x) (hf : ∀ b, Maintains P (f b)) :
    Establishes P (x >>= f) := by
  intro s d u h
  obtain ⟨b, t, hb, h⟩ := bind_ok.1 h
  have hu := hf b t (hx s b t hb)
  rwa [h] at hu

theorem when {c : Prop} [Decidable c] {x : Attempt α σ PUnit} {f : PUnit → Attempt α σ δ}
    (hf : ∀ u, Establishes P (f u)) : Establishes P (if c then x >>= f else f ⟨⟩) := by
  split
  · exact bind hf
  · exact hf _

end Establishes

/-! ### Two attempts -/

/-- Whether two attempts on related states have the same outcome and leave related states. -/
def Agrees (R : σ → τ → Prop) (x : Attempt α σ β) (y : Attempt α τ β) : Prop :=
  ∀ s t, R s t → (x s).1 = (y t).1 ∧ R (x s).2 (y t).2

namespace Agrees

variable {R : σ → τ → Prop} {x : Attempt α σ β} {y : Attempt α τ β}

/-- Both fail, or both succeed. -/
theorem run (h : Agrees R x y) {s : σ} {t : τ} (hst : R s t) :
    (∃ e s' t', x s = (.error e, s') ∧ y t = (.error e, t')) ∨
      ∃ b s' t', x s = (.ok b, s') ∧ y t = (.ok b, t') ∧ R s' t' := by
  obtain ⟨ho, hr⟩ := h s t hst
  rcases hx : x s with ⟨e | b, s'⟩ <;> rw [hx] at ho hr
  · exact .inl ⟨e, s', (y t).2, rfl, Prod.ext ho.symm rfl⟩
  · exact .inr ⟨b, s', (y t).2, rfl, Prod.ext ho.symm rfl, hr⟩

private theorem pure (b : β) : Agrees R (pure b : Attempt α σ β) (pure b) := fun _ _ h => ⟨rfl, h⟩

theorem mapM_outcome (f : β → Outcome α δ) (bs : List β) :
    Agrees R (bs.mapM fun b => liftM (f b) : Attempt α σ (List δ)) (bs.mapM fun b => liftM (f b)) := fun _ _ h => by
  rw [run_mapM_outcome, run_mapM_outcome]
  exact ⟨rfl, h⟩

/-- What follows a look at the states starts in them. -/
theorem get_bind {f : σ → Attempt α σ δ} {g : τ → Attempt α τ δ}
    (h : ∀ s t, R s t → (f s s).1 = (g t t).1 ∧ R (f s s).2 (g t t).2) : Agrees R (get >>= f) (get >>= g) := h

theorem bind {f : β → Attempt α σ δ} {g : β → Attempt α τ δ} (hx : Agrees R x y) (hf : ∀ b, Agrees R (f b) (g b)) :
    Agrees R (x >>= f) (y >>= g) := by
  intro s t h
  obtain ⟨ho, hr⟩ := hx s t h
  rw [run_bind, run_bind]
  rcases hxs : x s with ⟨o, s'⟩
  rcases hyt : y t with ⟨o', t'⟩
  rw [hxs, hyt] at ho hr
  dsimp only at ho hr
  subst ho
  cases o with
  | error e => exact ⟨rfl, hr⟩
  | ok b => exact hf b s' t' hr

theorem forM {f : δ → Attempt α σ PUnit} {g : δ → Attempt α τ PUnit} {ds : List δ}
    (h : ∀ d ∈ ds, Agrees R (f d) (g d)) : Agrees R (ds.forM f) (ds.forM g) := by
  induction ds with
  | nil => exact .pure _
  | cons d ds ih =>
    rw [List.forM_eq_forM, List.forM_eq_forM, List.forM_cons, List.forM_cons]
    exact (h d (List.mem_cons_self ..)).bind fun _ => ih fun c hc => h c (List.mem_cons_of_mem _ hc)

end Agrees

/-! ### Changes that an attempt does not look at -/

/-- Whether an attempt does the same before and after a change of the state. -/
def Commutes (φ : σ → σ) (act : Attempt α σ β) : Prop := ∀ s, act (φ s) = ((act s).1, φ (act s).2)

namespace Commutes

variable {φ : σ → σ} {x : Attempt α σ β}

theorem outcome (o : Outcome α β) : Commutes φ (liftM o : Attempt α σ β) := fun _ => rfl

theorem pure (b : β) : Commutes φ (pure b : Attempt α σ β) := fun _ => rfl

theorem throw (e : Fault α) : Commutes φ (throw e : Attempt α σ β) := fun _ => rfl

theorem need (b : Option β) : Commutes φ (Attempt.need b : Attempt α σ β) := fun _ => by cases b <;> rfl

theorem ite {c : Prop} [Decidable c] {y : Attempt α σ β} (hx : Commutes φ x) (hy : Commutes φ y) :
    Commutes φ (if c then x else y) := by
  split
  · exact hx
  · exact hy

theorem modify {f : σ → σ} (h : ∀ s, f (φ s) = φ (f s)) : Commutes φ (modify f : Attempt α σ PUnit) := fun s => by
  rw [run_modify, run_modify, h]

theorem mapM_outcome (f : β → Outcome α δ) (bs : List β) :
    Commutes φ (bs.mapM fun b => liftM (f b) : Attempt α σ (List δ)) := fun s => by
  rw [run_mapM_outcome, run_mapM_outcome]

theorem bind {f : β → Attempt α σ δ} (hx : Commutes φ x) (hf : ∀ b, Commutes φ (f b)) : Commutes φ (x >>= f) := by
  intro s
  rw [run_bind, run_bind, hx s]
  rcases x s with ⟨_ | b, t⟩
  · rfl
  · exact hf b t

/-- A part that is left out under a condition. -/
theorem when {c : Prop} [Decidable c] {x : Attempt α σ PUnit} {f : PUnit → Attempt α σ δ} (hx : Commutes φ x)
    (hf : ∀ u, Commutes φ (f u)) : Commutes φ (if c then x >>= f else f ⟨⟩) :=
  .ite (hx.bind hf) (hf _)

/-- What follows a look at the state may depend on it through what the change keeps. -/
theorem get_bind {f : σ → Attempt α σ δ} (hf : ∀ s, f (φ s) = f s) (h : ∀ s, Commutes φ (f s)) :
    Commutes φ (get >>= f) := by
  intro s
  change f (φ s) (φ s) = _
  rw [hf, h]
  rfl

theorem forM {f : β → Attempt α σ PUnit} {bs : List β} (h : ∀ b ∈ bs, Commutes φ (f b)) : Commutes φ (bs.forM f) := by
  induction bs with
  | nil => exact fun _ => rfl
  | cons b bs ih =>
    rw [List.forM_eq_forM, List.forM_cons]
    exact (h b (List.mem_cons_self ..)).bind fun _ => ih fun c hc => h c (List.mem_cons_of_mem _ hc)

end Commutes

end Attempt

end BlackOilWells
