import ClassMachine.Work

/-!
# What work does to its state

Work stays within a relation if the relation holds between the state that the work is started in
and the state that it ends in, whether it succeeds or fails. For a reflexive and transitive
relation it is enough that each part of the work stays within it.
-/

namespace ClassMachine.Work

variable {ε ε' σ α β : Type}

theorem bind_eq_ok_iff (answer : Except ε α) (next : α → Except ε β) (b : β) :
    answer >>= next = .ok b ↔ ∃ a, answer = .ok a ∧ next a = .ok b := by
  cases answer with
  | error e => exact iff_of_false (fun h => nomatch h) fun ⟨_, h, _⟩ => nomatch h
  | ok a => exact ⟨fun h => ⟨a, rfl, h⟩, fun ⟨_, h, hnext⟩ => Except.ok.inj h ▸ hnext⟩

theorem check_bind_eq_ok_iff (check : Except ε Unit) (next : Except ε β) (b : β) :
    (check >>= fun _ => next) = .ok b ↔ check = .ok () ∧ next = .ok b := by
  rw [bind_eq_ok_iff]
  exact ⟨fun ⟨_, hcheck, hnext⟩ => ⟨hcheck, hnext⟩, fun ⟨hcheck, hnext⟩ => ⟨_, hcheck, hnext⟩⟩

theorem discard_eq_ok_iff (answer : Except ε α) :
    discard answer = .ok () ↔ ∃ a, answer = .ok a := by
  cases answer with
  | error e => exact iff_of_false (fun h => nomatch h) fun ⟨_, h⟩ => nomatch h
  | ok a => exact iff_of_true rfl ⟨a, rfl⟩

theorem map_eq_error_iff (f : α → β) (answer : Except ε α) (e : ε) :
    f <$> answer = .error e ↔ answer = .error e := by
  cases answer with
  | error found =>
    exact ⟨fun h => congrArg _ (Except.error.inj h), fun h => congrArg _ (Except.error.inj h)⟩
  | ok a => exact iff_of_false (fun h => nomatch h) fun h => nomatch h

theorem forM_eq_ok_iff (xs : List α) (f : α → Except ε Unit) :
    xs.forM f = .ok () ↔ ∀ x ∈ xs, f x = .ok () := by
  induction xs with
  | nil => exact iff_of_true rfl fun _ h => nomatch h
  | cons x xs ih =>
    have hcons : (x :: xs).forM f = f x >>= fun _ => xs.forM f := rfl
    rw [hcons, bind_eq_ok_iff, List.forall_mem_cons, ← ih]
    exact ⟨fun ⟨_, hx, hxs⟩ => ⟨hx, hxs⟩, fun ⟨hx, hxs⟩ => ⟨_, hx, hxs⟩⟩

theorem forM_eq_error_iff (xs : List α) (f : α → Except ε Unit) (e : ε) :
    xs.forM f = .error e ↔ ∃ front x back, xs = front ++ x :: back ∧
      (∀ y ∈ front, f y = .ok ()) ∧ f x = .error e := by
  induction xs with
  | nil => exact iff_of_false (fun h => nomatch h) (by simp)
  | cons x xs ih =>
    have hcons : (x :: xs).forM f = f x >>= fun _ => xs.forM f := rfl
    rw [hcons]
    cases hx : f x with
    | error found =>
      constructor
      · intro h
        obtain rfl := Except.error.inj h
        exact ⟨[], x, xs, rfl, by simp, hx⟩
      · rintro ⟨front, y, back, hxs, hfront, hy⟩
        cases front with
        | nil =>
          obtain ⟨rfl, -⟩ := List.cons.inj hxs
          exact hx.symm.trans hy
        | cons first front =>
          obtain ⟨rfl, -⟩ := List.cons.inj hxs
          rw [hfront x (List.mem_cons_self ..)] at hx
          contradiction
    | ok done =>
      refine (show _ ↔ xs.forM f = .error e from Iff.rfl).trans (ih.trans ?_)
      constructor
      · rintro ⟨front, y, back, rfl, hfront, hy⟩
        exact ⟨x :: front, y, back, rfl, List.forall_mem_cons.2 ⟨hx, hfront⟩, hy⟩
      · rintro ⟨front, y, back, hxs, hfront, hy⟩
        cases front with
        | nil =>
          obtain ⟨rfl, -⟩ := List.cons.inj hxs
          rw [hx] at hy
          contradiction
        | cons first front =>
          obtain ⟨rfl, rfl⟩ := List.cons.inj hxs
          exact ⟨front, y, back, rfl, (List.forall_mem_cons.1 hfront).2, hy⟩

def final : EStateM.Result ε σ α → σ
  | .ok _ s => s
  | .error _ s => s

def onState {τ : Type} (f : σ → τ) : EStateM.Result ε σ α → EStateM.Result ε τ α
  | .ok a s => .ok a (f s)
  | .error e s => .error e (f s)

theorem run_bind_eq_ok_iff (work : EStateM ε σ α) (next : α → EStateM ε σ β) (s t : σ) (b : β) :
    (work >>= next).run s = .ok b t ↔
      ∃ a middle, work.run s = .ok a middle ∧ (next a).run middle = .ok b t := by
  rw [EStateM.run_bind]
  cases work.run s with
  | error e middle => exact iff_of_false (fun h => nomatch h) fun ⟨_, _, h, _⟩ => nomatch h
  | ok a middle =>
    constructor
    · exact fun h => ⟨a, middle, rfl, h⟩
    · rintro ⟨_, _, hwork, hnext⟩
      obtain ⟨rfl, rfl⟩ := EStateM.Result.ok.inj hwork
      exact hnext

theorem run_map_eq_ok_iff (f : α → β) (work : EStateM ε σ α) (s t : σ) (b : β) :
    (f <$> work).run s = .ok b t ↔ ∃ a, work.run s = .ok a t ∧ f a = b := by
  rw [run_map]
  cases work.run s with
  | error e t => exact iff_of_false (fun h => nomatch h) fun ⟨_, h, _⟩ => nomatch h
  | ok a t =>
    constructor
    · intro h
      obtain ⟨rfl, rfl⟩ := EStateM.Result.ok.inj h
      exact ⟨a, rfl, rfl⟩
    · rintro ⟨_, hwork, rfl⟩
      obtain ⟨rfl, rfl⟩ := EStateM.Result.ok.inj hwork
      rfl

@[simp]
theorem final_onState {τ : Type} (f : σ → τ) (result : EStateM.Result ε σ α) :
    final (onState f result) = f (final result) := by
  cases result <;> rfl

@[simp]
theorem run_discard (work : EStateM ε σ α) (s : σ) :
    (discard work).run s =
      match work.run s with
      | .ok _ s => .ok .unit s
      | .error e s => .error e s :=
  run_map (fun _ => PUnit.unit) work s

def Within (R : σ → σ → Prop) (work : EStateM ε σ α) : Prop :=
  ∀ s, R s (final (work.run s))

variable {R : σ → σ → Prop} {work : EStateM ε σ α}

theorem Within.ok (h : Within R work) {s t : σ} {a : α} (hrun : work.run s = .ok a t) : R s t := by
  have hs := h s
  rwa [hrun] at hs

theorem Within.error (h : Within R work) {s t : σ} {e : ε} (hrun : work.run s = .error e t) :
    R s t := by
  have hs := h s
  rwa [hrun] at hs

theorem Within.mono {S : σ → σ → Prop} (h : Within R work) (hsub : ∀ s t, R s t → S s t) :
    Within S work :=
  fun s => hsub _ _ (h s)

theorem within_pure (hrefl : ∀ s, R s s) (a : α) : Within R (pure a : EStateM ε σ α) :=
  hrefl

theorem within_throw (hrefl : ∀ s, R s s) (e : ε) : Within R (throw e : EStateM ε σ α) :=
  hrefl

theorem within_get (hrefl : ∀ s, R s s) : Within R (get : EStateM ε σ σ) :=
  hrefl

theorem Within.bind (htrans : ∀ s t u, R s t → R t u → R s u) {next : α → EStateM ε σ β}
    (h : Within R work) (hnext : ∀ a, Within R (next a)) : Within R (work >>= next) := by
  intro s
  rw [EStateM.run_bind]
  cases hrun : work.run s with
  | ok a t => exact htrans _ _ _ (h.ok hrun) (hnext a t)
  | error e t => exact h.error hrun

theorem Within.map (f : α → β) (h : Within R work) : Within R (f <$> work) := by
  intro s
  rw [run_map]
  cases hrun : work.run s with
  | ok a t => exact h.ok hrun
  | error e t => exact h.error hrun

theorem Within.discard (h : Within R work) : Within R (discard work) :=
  h.map fun _ => PUnit.unit

theorem Within.attempt (h : Within R work) : Within R (attempt work) := by
  intro s
  rw [run_attempt]
  cases hrun : work.run s with
  | ok a t => exact h.ok hrun
  | error e t => exact h.error hrun

theorem Within.adaptExcept (f : ε → ε') (h : Within R work) : Within R (work.adaptExcept f) := by
  intro s
  rw [EStateM.run_adaptExcept]
  cases hrun : work.run s with
  | ok a t => exact h.ok hrun
  | error e t => exact h.error hrun

section stays

variable {I : σ → Prop} {answers : α → Prop}

/-- The work keeps the state as it should be, and so is what it answers. -/
def Stays (I : σ → Prop) (work : EStateM ε σ α) (answers : α → Prop) : Prop :=
  ∀ s, I s → I (final (work.run s)) ∧ ∀ a t, work.run s = .ok a t → answers a

theorem stays_pure {a : α} (h : answers a) : Stays I (pure a : EStateM ε σ α) answers :=
  fun _ hs => ⟨hs, fun _ _ hrun => (EStateM.Result.ok.inj hrun).1 ▸ h⟩

theorem stays_throw (e : ε) : Stays I (throw e : EStateM ε σ α) answers :=
  fun _ hs => ⟨hs, fun _ _ hrun => nomatch hrun⟩

theorem stays_modify {f : σ → σ} (h : ∀ s, I s → I (f s)) :
    Stays I (modify f : EStateM ε σ Unit) fun _ => True :=
  fun s hs => ⟨h s hs, fun _ _ _ => trivial⟩

theorem Stays.bind {next : α → EStateM ε σ β} {last : β → Prop} (h : Stays I work answers)
    (hnext : ∀ a, answers a → Stays I (next a) last) : Stays I (work >>= next) last := by
  intro s hs
  obtain ⟨hlater, hanswers⟩ := h s hs
  rw [EStateM.run_bind]
  cases hrun : work.run s with
  | error e t =>
    rw [hrun] at hlater
    exact ⟨hlater, fun _ _ h => nomatch h⟩
  | ok a t =>
    rw [hrun] at hlater
    exact hnext a (hanswers a t hrun) t hlater

/-- Work that ends in the same states keeps them alike; nothing is known of what it answers. -/
theorem Stays.of_final_eq {other : EStateM ε' σ β} (h : Stays I work answers)
    (hfinal : ∀ s, final (other.run s) = final (work.run s)) : Stays I other fun _ => True :=
  fun s hs => ⟨hfinal s ▸ (h s hs).1, fun _ _ _ => trivial⟩

theorem Stays.discard (h : Stays I work answers) : Stays I (discard work) fun _ => True := by
  refine h.of_final_eq fun s => ?_
  rw [run_discard]
  cases work.run s <;> rfl

theorem Stays.attempt (h : Stays I work answers) : Stays I (attempt work) fun _ => True := by
  refine h.of_final_eq fun s => ?_
  rw [run_attempt]
  cases work.run s <;> rfl

theorem Stays.weaken {weaker : α → Prop} (h : Stays I work answers)
    (hanswers : ∀ a, answers a → weaker a) : Stays I work weaker :=
  fun s hs => ⟨(h s hs).1, fun a t hrun => hanswers a ((h s hs).2 a t hrun)⟩

/-- Work that stays within a relation stays in what is related to a state. -/
theorem Within.stays (htrans : ∀ s t u, R s t → R t u → R s u) (h : Within R work) (s : σ) :
    Stays (R s) work fun _ => True :=
  fun t ht => ⟨htrans s t _ ht (h t), fun _ _ _ => trivial⟩

end stays

end ClassMachine.Work
