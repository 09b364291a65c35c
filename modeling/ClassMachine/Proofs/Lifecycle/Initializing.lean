import ClassMachine.Proofs.Lifecycle.Moments

/-!
# The moments of an initialization

The moments are listed as the work comes to them: after a class has been loaded, when its
initialization begins and when it ends. Getting the static fields and being done is one moment.
Each list is a trail from the table that the work is started on to the one that it ends with. If the
depth is used up, the trail stops with classes under way.
-/

namespace ClassMachine

open Work

namespace Lifecycle

/-- The moments that work comes to, as they depend on the state that it is started in. -/
abbrev Moments (σ : Type) := σ → List Moment

variable {ε σ α : Type}

def quiet : Moments σ :=
  fun _ => []

/-- The moments of work, and of what follows it if it succeeds. -/
def follow (moments : Moments σ) (work : EStateM ε σ α) (next : α → Moments σ) : Moments σ :=
  fun s => moments s ++
    match work.run s with
    | .ok a later => next a later
    | .error _ _ => []

end Lifecycle

open Lifecycle ClassTable

namespace Linking

def loadMoments (active : List Bytes) (name : Bytes) : Moments ClassTable :=
  fun table => [⟨active, final ((load name).run table)⟩]

def superMoments (active : List Bytes) (file : ClassFile) (next : Bytes → Moments ClassTable) :
    Moments ClassTable :=
  match file.parent with
  | none => quiet
  | some super => follow (loadMoments active super) (load super) fun _ => next super

/-- The moment at which an initialization ends, if it ends. -/
def endMoments (active : List Bytes) : EStateM.Result Stop ClassTable Unit → List Moment
  | .error .tooDeep _ => []
  | result => [⟨active, final result⟩]

def initMoments : (depth : Nat) → (active : List Bytes) → (name : Bytes) → Moments ClassTable
  | 0, _, _ => quiet
  | depth + 1, active, name => fun table =>
    match table.get? name with
    | none => []
    | some c =>
      match c.state with
      | .done | .inProgress | .failed => []
      | .verified =>
        let entered := table.setState name .inProgress
        let above := superMoments (name :: active) c.file (initMoments depth (name :: active))
        ⟨name :: active, entered⟩ :: above entered ++
          endMoments active ((initClass (depth + 1) name).run table)

theorem lost_of_load {name : Bytes} {table later : ClassTable} {stop : Stop}
    (h : (load name).run table = .error stop later) :
    (∃ fault, stop = .fault fault) ∧ Lost later name := by
  rw [run_load] at h
  cases hget : table.get? name with
  | some c => simp [hget] at h
  | none =>
    cases hfetch : table.source.fetch name with
    | ok file => simp [hget, hfetch] at h
    | error fault =>
      simp only [hget, hfetch, EStateM.Result.error.injEq] at h
      obtain ⟨rfl, rfl⟩ := h
      exact ⟨⟨fault, rfl⟩, fun c hsome => nomatch hget.symm.trans hsome⟩

/-- How the result for a class and the last moment fit together. -/
def Arrives (active : List Bytes) (good bad : ClassTable → Prop) :
    EStateM.Result Stop ClassTable Unit → Moment → Prop
  | .ok _ later, last => last = ⟨active, later⟩ ∧ good later
  | .error (.fault _) later, last => last = ⟨active, later⟩ ∧ bad later
  | .error .tooDeep later, last => last.table = later

theorem Arrives.imp {active : List Bytes} {good bad better worse : ClassTable → Prop}
    {result : EStateM.Result Stop ClassTable Unit} {last : Moment}
    (h : Arrives active good bad result last) (hgood : ∀ later, good later → better later)
    (hbad : ∀ later, bad later → worse later) : Arrives active better worse result last := by
  cases result with
  | ok _ later => exact ⟨h.1, hgood later h.2⟩
  | error stop later =>
    cases stop with
    | fault fault => exact ⟨h.1, hbad later h.2⟩
    | tooDeep => exact h

/-- Initializations of at most that depth lead along their moments to what they end with. A class
that is initialized for another one is the superclass of that one. -/
def InitTrails (depth : Nat) : Prop :=
  ∀ active name table, table.Checked → (∀ outer ∈ active.head?, Below table outer name) →
    ∃ last, Trail ⟨active, table⟩ (initMoments depth active name table) last ∧
      Arrives active (Ready · name) (Lost · name) ((initClass depth name).run table) last

variable {depth : Nat} {name : Bytes} {table : ClassTable} {c : LoadedClass}

theorem trail_super (ih : InitTrails depth) (active : List Bytes) (htable : table.Checked)
    (hget : table.get? name = some c) :
    ∃ last, Trail ⟨name :: active, table⟩
        (superMoments (name :: active) c.file (initMoments depth (name :: active)) table) last ∧
      Arrives (name :: active) (fun later => ∀ super, c.file.parent = some super → Ready later super)
        (fun later => ∃ super, c.file.parent = some super ∧ Lost later super)
        ((withSuperclass c.file (initClass depth)).run table) last := by
  rw [withSuperclass_eq (htable name c hget).2]
  unfold superMoments
  cases hparent : c.file.parent with
  | none => exact ⟨_, .nil _, rfl, fun _ h => nomatch h⟩
  | some super =>
    have hextends := load_extends super table
    simp only [follow, loadMoments, EStateM.run_bind, run_discard]
    cases hload : (load super).run table with
    | error stop later =>
      rw [hload] at hextends
      obtain ⟨⟨fault, rfl⟩, hlost⟩ := lost_of_load hload
      exact ⟨_, .single (.load hextends), rfl, super, rfl, hlost⟩
    | ok file later =>
      rw [hload] at hextends
      have hstep : Step ⟨name :: active, table⟩ ⟨name :: active, later⟩ := .load hextends
      have hbelow : Below later name super := Below.of_grows ⟨c, hget, hparent⟩ hextends.grows
      have houter : ∀ outer ∈ (name :: active).head?, Below later outer super := by
        intro outer hhead
        exact Option.some.inj hhead ▸ hbelow
      obtain ⟨last, htrail, harrives⟩ :=
        ih (name :: active) super later (hextends.grows.checked htable) houter
      refine ⟨last, (Trail.single hstep).append htrail, ?_⟩
      apply harrives.imp
      · intro later hready above habove
        exact Option.some.inj habove ▸ hready
      · intro later hlost
        exact ⟨super, rfl, hlost⟩

theorem trail_verified (ih : InitTrails depth) {active : List Bytes} (htable : table.Checked)
    (houter : ∀ outer ∈ active.head?, Below table outer name) (hget : table.get? name = some c)
    (hstate : c.state = .verified) :
    ∃ last, Trail ⟨active, table⟩ (initMoments (depth + 1) active name table) last ∧
      Arrives active (Ready · name) (Lost · name) ((initClass (depth + 1) name).run table) last := by
  have hentered := changes_setState .inProgress hget
  have hchecked := hentered.grows.checked htable
  have henter : Step ⟨active, table⟩ ⟨name :: active, table.setState name .inProgress⟩ :=
    .enter hentered hstate houter
  obtain ⟨last, htrail, harrives⟩ := trail_super ih active hchecked hentered.get?_self
  have hwhole := Trail.cons henter htrail
  obtain ⟨d, hd, hfile⟩ := htrail.grows.kept name _ hentered.get?_self
  simp only [initMoments, hget, hstate, run_initClass_verified hget hstate]
  cases hrun : (withSuperclass c.file (initClass depth)).run (table.setState name .inProgress) with
  | ok _ later =>
    rw [hrun] at harrives
    obtain ⟨rfl, hready⟩ := harrives
    have hcheck := (htrail.grows.checked hchecked name d hd).2
    have hdone := changes_finish (d.file.filled d.statics) hd
    have hfinish : Step ⟨name :: active, later⟩ ⟨active, _⟩ := .finish hdone fun super hsuper =>
      hready super (by rw [← hsuper, hfile])
    simp only [run_prepareStatics hd hcheck]
    exact ⟨_, hwhole.append (.single hfinish), rfl, _, hdone.get?_self, .inl rfl⟩
  | error stop later =>
    rw [hrun] at harrives
    cases stop with
    | tooDeep => exact ⟨last, by rw [endMoments, List.append_nil]; exact hwhole, harrives⟩
    | fault fault =>
      obtain ⟨rfl, super, hsuper, hlost⟩ := harrives
      have hfailed := changes_setState .failed hd
      have habort : Step ⟨name :: active, later⟩ ⟨active, later.setState name .failed⟩ :=
        .abort hfailed (by rw [← hsuper, hfile]) hlost
      refine ⟨_, hwhole.append (.single habort), rfl, ?_⟩
      intro e he
      exact Option.some.inj (hfailed.get?_self.symm.trans he) ▸ rfl

/-- The moments of an initialization are a trail to what it ends with. -/
theorem initTrails (depth : Nat) : InitTrails depth := by
  induction depth with
  | zero => exact fun _ _ _ _ _ => ⟨_, .nil _, rfl⟩
  | succ depth ih =>
    intro active name table htable houter
    cases hget : table.get? name with
    | none =>
      simp only [initMoments, initClass, EStateM.run_bind, run_lookup, hget]
      refine ⟨_, .nil _, rfl, fun c hsome => ?_⟩
      rw [hget] at hsome
      contradiction
    | some c =>
      cases hstate : c.state with
      | verified => exact trail_verified ih htable houter hget hstate
      | done =>
        simp only [initMoments, hget, hstate, run_initClass_settled hget (.inl hstate)]
        exact ⟨_, .nil _, rfl, c, hget, .inl hstate⟩
      | inProgress =>
        simp only [initMoments, hget, hstate, run_initClass_settled hget (.inr hstate)]
        exact ⟨_, .nil _, rfl, c, hget, .inr hstate⟩
      | failed =>
        simp only [initMoments, hget, hstate, run_initClass_failed hget hstate]
        exact ⟨_, .nil _, rfl, fun d hd => Option.some.inj (hget.symm.trans hd) ▸ hstate⟩

end Linking

end ClassMachine
