import TinyKernel.Console

/-!
# What a run keeps to

A run ends in a value or in a fault.  `Run.Meets` says both at once: which values it can end in,
and which faults.  A run that meets its contract with no fault admitted always ends in a value.

The rules follow the way runs are put together, so that a proof about an operation has the shape of
the operation.

* `Run.Meets` — the contract of a run
* `Run.Meets.bind` — a run of two parts
* `Run.meets_lift_bind`, `Run.meets_log_bind` — parts that are known to succeed
* `Run.Determined` — runs that end in one value
-/

namespace TinyKernel

namespace Run

variable {α β : Type} {admits admits' : Fault → Prop}

/-- **The contract of a run.**  From every console it ends in a value with the given property, or in a
fault that is admitted.  Where no fault is admitted, the run always ends in a value; where every fault
is, the contract speaks of the values only. -/
def Meets (x : Run α) (admits : Fault → Prop) (post : α → Prop) : Prop :=
  ∀ c, match x.run c with
    | .ok a _ => post a
    | .error e _ => admits e

theorem meets_pure {a : α} {post : α → Prop} (h : post a) : (pure a : Run α).Meets admits post :=
  fun _ => h

theorem meets_throw {e : Fault} {post : α → Prop} (h : admits e) :
    (throw e : Run α).Meets admits post :=
  fun _ => h

/-- A contract may promise less, and admit more.  This is how a lemma that is stated sharply is used
where less is wanted. -/
theorem Meets.mono {x : Run α} {post post' : α → Prop} (h : x.Meets admits post)
    (fault_imp : ∀ e, admits e → admits' e) (post_imp : ∀ a, post a → post' a) :
    x.Meets admits' post' := by
  intro c
  have hc := h c
  revert hc
  cases x.run c with
  | ok a c' => exact post_imp a
  | error e c' => exact fault_imp e

theorem Meets.imp {x : Run α} {post post' : α → Prop} (h : x.Meets admits post)
    (post_imp : ∀ a, post a → post' a) : x.Meets admits post' :=
  h.mono (fun _ he => he) post_imp

/-- A contract may admit every fault.  Contracts of different parts are brought to the same faults in
this way. -/
theorem Meets.lax {x : Run α} {post : α → Prop} (h : x.Meets admits post) :
    x.Meets (fun _ => True) post :=
  h.mono (fun _ _ => trivial) fun _ h => h

/-- Two things are said about one run.  They hold of the same value, since a run from one console has
one outcome. -/
theorem Meets.and {x : Run α} {post post' : α → Prop} (h : x.Meets admits post)
    (h' : x.Meets admits' post') : x.Meets admits fun a => post a ∧ post' a := by
  intro c
  have hc := h c
  have hc' := h' c
  revert hc hc'
  cases x.run c with
  | ok a c' => exact And.intro
  | error e c' => exact fun he _ => he

theorem run_bind_of_error {x : Run α} {f : α → Run β} {c c' : Console} {e : Fault}
    (h : x.run c = .error e c') : (x >>= f).run c = .error e c' := by
  simp only [EStateM.run, bind, EStateM.bind] at *
  rw [h]

/-- **A run of two parts.**  The second part is met at whatever the first one promises, and only the
last value has to have the property; a fault ends the run in either part.  Proofs about operations
follow their `do` blocks with this. -/
theorem Meets.bind {x : Run α} {f : α → Run β} {mid : α → Prop} {post : β → Prop}
    (hx : x.Meets admits mid) (hf : ∀ a, mid a → (f a).Meets admits post) :
    (x >>= f).Meets admits post := by
  intro c
  have hc := hx c
  cases hrun : x.run c with
  | ok a c' =>
      rw [hrun] at hc
      rw [run_bind_of_ok hrun]
      exact hf a hc c'
  | error e c' =>
      rw [hrun] at hc
      rw [run_bind_of_error hrun]
      exact hc

theorem Meets.map {x : Run α} {f : α → β} {post : β → Prop}
    (hx : x.Meets admits fun a => post (f a)) : (f <$> x).Meets admits post := by
  rw [map_eq_pure_bind]
  exact hx.bind fun a ha => meets_pure ha

theorem Meets.of_map {x : Run α} {f : α → β} {post : β → Prop} (hx : (f <$> x).Meets admits post) :
    x.Meets admits fun a => post (f a) := by
  intro c
  have hc := hx c
  rw [map_eq_pure_bind] at hc
  cases hrun : x.run c with
  | ok a c' =>
      rw [run_bind_of_ok hrun] at hc
      exact hc
  | error e c' =>
      rw [run_bind_of_error hrun] at hc
      exact hc

/-- A record is left, and the run goes on.  The console is the only thing that a record changes, and
contracts hold from every console. -/
theorem meets_log_bind {level : Level} {message : String} {f : Unit → Run β} {post : β → Prop}
    (hf : (f ()).Meets admits post) : (Run.log level message >>= f).Meets admits post :=
  fun c => hf (c.log level message)

/-- A part that prints nothing and succeeds hands its value on.  What the part computes is known here,
so that no property stands in for its value. -/
theorem meets_lift_bind {x : Checked α} {f : α → Run β} {post : β → Prop} {a : α} (hx : x = .ok a)
    (hf : (f a).Meets admits post) : ((liftM x : Run α) >>= f).Meets admits post := by
  subst hx
  exact hf

/-- A part that faults ends the run, and so its fault has to be admitted. -/
theorem meets_lift_bind_of_error {f : α → Run β} {post : β → Prop} {e : Fault} (h : admits e) :
    ((liftM (.error e : Checked α) : Run α) >>= f).Meets admits post :=
  fun _ => h

/-- A part that prints nothing may fault where every fault is admitted, and then only its values
matter. -/
theorem meets_lift_bind_of_ok {x : Checked α} {f : α → Run β} {post : β → Prop}
    (hf : ∀ a, x = .ok a → (f a).Meets (fun _ => True) post) :
    ((liftM x : Run α) >>= f).Meets (fun _ => True) post := by
  cases x with
  | ok a => exact hf a rfl
  | error e => exact fun _ => trivial

/-! ## Values that are returned -/

/-- A value that a run can end in, from some console to another. -/
def Returns (x : Run α) (a : α) : Prop := ∃ c c', x.run c = .ok a c'

theorem meets_returns (x : Run α) : x.Meets (fun _ => True) x.Returns := by
  intro c
  cases hrun : x.run c with
  | ok a c' => exact ⟨c, c', hrun⟩
  | error e c' => trivial

/-- A run that never faults ends in a value.  The converse direction is `meets_returns`, which holds of
any run. -/
theorem Meets.exists_returns {x : Run α} {post : α → Prop} (h : x.Meets (fun _ => False) post) :
    ∃ a, x.Returns a ∧ post a := by
  have hc := h default
  cases hrun : x.run default with
  | ok a c' =>
      rw [hrun] at hc
      exact ⟨a, ⟨default, c', hrun⟩, hc⟩
  | error e c' =>
      rw [hrun] at hc
      exact hc.elim

theorem Meets.of_returns {x : Run α} {a : α} {post : α → Prop} (h : x.Meets admits post)
    (hreturns : x.Returns a) : post a := by
  obtain ⟨c, c', hrun⟩ := hreturns
  have hc := h c
  rwa [hrun] at hc

/-- **A run that does not look at the console** ends in the same value from every console.  Everything
that is built from checked arithmetic and records is of this kind. -/
def Determined (x : Run α) : Prop := ∀ a b, x.Returns a → x.Returns b → a = b

theorem determined_pure (a : α) : (pure a : Run α).Determined := by
  rintro b b' ⟨c₁, c₁', ⟨⟩⟩ ⟨c₂, c₂', ⟨⟩⟩
  rfl

theorem determined_lift (x : Checked α) : (liftM x : Run α).Determined := by
  rintro b b' ⟨c₁, c₁', h₁⟩ ⟨c₂, c₂', h₂⟩
  obtain ⟨h₁, -⟩ := run_lift_eq_ok.mp h₁
  obtain ⟨h₂, -⟩ := run_lift_eq_ok.mp h₂
  exact Except.ok.inj (h₁.symm.trans h₂)

/-- A record is left, and nothing else: the value is the same, whatever became of the record. -/
theorem determined_log (level : Level) (message : String) :
    (Run.log level message).Determined :=
  fun _ _ _ _ => rfl

theorem Determined.bind {x : Run α} {f : α → Run β} (hx : x.Determined)
    (hf : ∀ a, (f a).Determined) : (x >>= f).Determined := by
  rintro b b' ⟨c₁, c₁', h₁⟩ ⟨c₂, c₂', h₂⟩
  obtain ⟨a, d₁, hx₁, hf₁⟩ := run_bind_eq_ok.mp h₁
  obtain ⟨a', d₂, hx₂, hf₂⟩ := run_bind_eq_ok.mp h₂
  obtain rfl := hx a a' ⟨c₁, d₁, hx₁⟩ ⟨c₂, d₂, hx₂⟩
  exact hf a b b' ⟨d₁, c₁', hf₁⟩ ⟨d₂, c₂', hf₂⟩

/-- Of a run that is determined, what is known of one value is known of every one.  It turns an
equation between values into a contract. -/
theorem Determined.meets {x : Run α} (hx : x.Determined) {a : α} (hreturns : x.Returns a) :
    x.Meets (fun _ => True) fun b => b = a :=
  (meets_returns x).imp fun b hb => hx b a hb hreturns

end Run

end TinyKernel
