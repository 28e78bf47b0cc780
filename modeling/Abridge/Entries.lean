/-!
Bindings of keys to values with the smallest key first and each key once. The order of keys is that
of their characters, which is also the order of their bytes. A later binding of a key replaces the
earlier one.
-/
namespace Abridge

abbrev Entries (α : Type) := List (String × α)

namespace Entries

variable {α : Type}

/-- Binds `k` to `x`, in place of what `k` was bound to. -/
def insert (k : String) (x : α) : Entries α → Entries α
  | [] => [(k, x)]
  | (j, y) :: rest =>
    if k < j then (k, x) :: (j, y) :: rest
    else if k = j then (k, x) :: rest
    else (j, y) :: insert k x rest

/-- What `k` is bound to. -/
def find? (k : String) : Entries α → Option α
  | [] => none
  | (j, y) :: rest => if j = k then some y else find? k rest

/-- The bindings in the order given, each replacing an earlier one of the same key. -/
def ofList (xs : List (String × α)) : Entries α := xs.foldl (fun acc p => insert p.1 p.2 acc) []

def keys (es : Entries α) : List String := es.map Prod.fst

end Entries

end Abridge
