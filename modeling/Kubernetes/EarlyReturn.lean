import Kubernetes.Core

/-! # Loops that may return

A loop over a list whose body may return from the function around it is a fold in `Except`: an error
is what is returned. `foldlM_rule` is the rule for such loops, with an invariant that may speak of
what the loop has passed; `Post.bind` is the rule for steps one after the other.
-/

namespace Kubernetes.EarlyReturn

universe u v w

variable {α : Type w} {σ τ : Type u} {ρ : Type v}

/-- The outcome of a loop or of one round of it. -/
def Post (next : σ → Prop) (returned : ρ → Prop) : Except ρ σ → Prop
  | .ok s => next s
  | .error r => returned r

theorem Post.bind {next : σ → Prop} {after : τ → Prop} {returned : ρ → Prop}
    {x : Except ρ σ} {f : σ → Except ρ τ} (hx : Post next returned x)
    (hf : ∀ s, next s → Post after returned (f s)) : Post after returned (x >>= f) := by
  cases x with
  | error r => exact hx
  | ok s => exact hf s hx

/-- A round keeps the invariant, or returns something that is right. -/
theorem foldlM_rule {f : σ → α → Except ρ σ} (inv : List α → σ → Prop) {returned : ρ → Prop}
    {l : List α} {s : σ} (hinit : inv [] s)
    (hstep : ∀ seen x rest s, l = seen ++ x :: rest → inv seen s →
      Post (inv (seen ++ [x])) returned (f s x)) : Post (inv l) returned (l.foldlM f s) := by
  -- the invariant is carried along what was seen so far
  have hgeneral : ∀ rest seen s, l = seen ++ rest → inv seen s →
      Post (inv l) returned (rest.foldlM f s) := by
    intro rest
    induction rest with
    | nil =>
      intro seen s hl hinv
      rw [List.append_nil] at hl
      rw [hl]
      exact hinv
    | cons x rest ih =>
      intro seen s hl hinv
      have hx := hstep seen x rest s hl hinv
      rw [List.foldlM_cons]
      cases hf : f s x with
      | error r =>
        rw [hf] at hx
        exact hx
      | ok s' =>
        rw [hf] at hx
        apply ih (seen ++ [x]) s' _ hx
        rw [hl, List.append_assoc]
        rfl
  exact hgeneral l [] s rfl hinit

end Kubernetes.EarlyReturn
