import SchemaGen.Proofs.References
/-!
# The records of the built-in types

A built-in type that has a record gets it exactly when some field of the scheduled files means that type, and then
once, in the module of the built-in types. What the fields mean is also what the members written for them spell.
-/
namespace SchemaGen
open Code Output Text Lexeme

namespace Output

namespace Schedule
variable {s : Schedule}

variable (formed : ∀ f ∈ s.files, f.toSchema.WellFormed) {out : Files} (generated : s.generate.result = .ok out)
include formed generated

end Schedule

end Output

open Schedule

end SchemaGen
