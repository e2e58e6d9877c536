/-!
Reports: the outcome of some work together with the warnings given on the way. Warnings stay when the work
fails later.
-/
namespace SchemaGen

/-- Warnings of type `ω`, and a failure of type `ε` or a value of type `α`. -/
structure Report (ω ε α : Type) where
  warnings : List ω
  result : Except ε α

namespace Report
variable {ω ω' ε ε' α β : Type}

def done (a : α) : Report ω ε α :=
  ⟨[], .ok a⟩

def fail (e : ε) : Report ω ε α :=
  ⟨[], .error e⟩

def warn (w : ω) : Report ω ε Unit :=
  ⟨[w], .ok ()⟩

def ofExcept (r : Except ε α) : Report ω ε α :=
  ⟨[], r⟩

def andThen (r : Report ω ε α) (next : α → Report ω ε β) : Report ω ε β :=
  match r.result with
  | .ok a =>
    let rest := next a
    ⟨r.warnings ++ rest.warnings, rest.result⟩
  | .error e => ⟨r.warnings, .error e⟩

instance : Monad (Report ω ε) where
  pure := done
  bind := andThen

/-- The same report with its warnings and its failure put in other terms. -/
def relabel (f : ω → ω') (g : ε → ε') (r : Report ω ε α) : Report ω' ε' α :=
  ⟨r.warnings.map f, match r.result with
    | .ok a => .ok a
    | .error e => .error (g e)⟩

def gather (f : α → Report ω ε (List β)) : List α → Report ω ε (List β)
  | [] => pure []
  | a :: as => do
    let head ← f a
    let tail ← gather f as
    return head ++ tail

end Report

end SchemaGen
