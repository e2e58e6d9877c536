/-!
Catalogs: finite maps kept as lists in the order of their keys. A key that is put twice keeps the later value.
-/
namespace SchemaGen

abbrev Catalog (κ ν : Type) : Type :=
  List (κ × ν)

namespace Catalog
variable {κ ν : Type} [LT κ] [DecidableLT κ] [DecidableEq κ]

def empty : Catalog κ ν := []

def insert (k : κ) (v : ν) : Catalog κ ν → Catalog κ ν
  | [] => [(k, v)]
  | (k', v') :: rest =>
    if k = k' then (k, v) :: rest
    else if k < k' then (k, v) :: (k', v') :: rest
    else (k', v') :: insert k v rest

omit [LT κ] [DecidableLT κ] in
def find? (k : κ) : Catalog κ ν → Option ν
  | [] => none
  | (k', v) :: rest => if k = k' then some v else find? k rest

def toList (c : Catalog κ ν) : List (κ × ν) := c

def keys (c : Catalog κ ν) : List κ :=
  c.toList.map (·.1)

def ofList (pairs : List (κ × ν)) : Catalog κ ν :=
  pairs.foldl (fun c p => insert p.1 p.2 c) empty

/-- The distinct members of a list, in order. -/
def sorted (ks : List κ) : List κ :=
  keys (ofList (ks.map (·, ())))

end Catalog

end SchemaGen
