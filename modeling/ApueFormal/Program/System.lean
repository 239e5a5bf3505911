/-!
# Runs of a system

A system makes one step after the other.  The steps may be restricted by a
condition on the state before the step.
-/

namespace ApueFormal.Program

universe u

inductive Reaches {σ : Type u} (init : σ → Prop) (step : σ → σ → Prop) : σ → Prop where
  | start {state : σ} (hinit : init state) : Reaches init step state
  | step {state state' : σ} (hreaches : Reaches init step state)
      (hstep : step state state') : Reaches init step state'

variable {σ : Type u} {init : σ → Prop} {step : σ → σ → Prop}

theorem Reaches.invariant {inv : σ → Prop} (hinit : ∀ state, init state → inv state)
    (hstep : ∀ state state', inv state → step state state' → inv state')
    {state : σ} (hreaches : Reaches init step state) : inv state := by
  induction hreaches with
  | start hstart => exact hinit _ hstart
  | step _ hnext ih => exact hstep _ _ ih hnext

/-- The outcome of code that goes on in one state or gives up with an error. -/
def Ends {ε σ : Type} (ok : σ → Prop) (exit : ε → Prop) : Except ε σ → Prop
  | .ok state => ok state
  | .error error => exit error

theorem Ends.imp {ε σ : Type} {ok ok' : σ → Prop} {exit exit' : ε → Prop}
    {result : Except ε σ} (hends : Ends ok exit result) (hok : ∀ state, ok state → ok' state)
    (hexit : ∀ error, exit error → exit' error) : Ends ok' exit' result := by
  cases result with
  | ok state => exact hok state hends
  | error error => exact hexit error hends

theorem Ends.bind {ε σ τ : Type} {ok : σ → Prop} {ok' : τ → Prop} {exit exit' : ε → Prop}
    {result : Except ε σ} {next : σ → Except ε τ} (hends : Ends ok exit result)
    (hexit : ∀ error, exit error → exit' error)
    (hnext : ∀ state, ok state → Ends ok' exit' (next state)) :
    Ends ok' exit' (result >>= next) := by
  cases result with
  | ok state => exact hnext state hends
  | error error => exact hexit error hends

theorem ends_foldlM {ε σ α : Type} {ok : σ → Prop} {exit : ε → Prop} {body : σ → α → Except ε σ}
    {items : List α} (hbody : ∀ item ∈ items, ∀ state, ok state → Ends ok exit (body state item))
    {state : σ} (hstate : ok state) : Ends ok exit (items.foldlM body state) := by
  induction items generalizing state with
  | nil => exact hstate
  | cons item rest ih =>
    have hfirst := hbody item List.mem_cons_self state hstate
    rw [List.foldlM_cons]
    cases hresult : body state item with
    | error error =>
      rw [hresult] at hfirst
      exact hfirst
    | ok next =>
      rw [hresult] at hfirst
      exact ih (fun item hmem => hbody item (List.mem_cons_of_mem _ hmem)) hfirst

end ApueFormal.Program
