import Abridge.Value

/-!
The parts of a value, at any depth and whether they are shown or not, and induction over them: a
container may assume the property of every value that it holds, at whatever position.
-/
namespace Abridge

/-- `Inside v w`: the value `w` is `v` or stands in it. -/
inductive Inside : Value → Value → Prop
  | here {v} : Inside v v
  | optional {v w} : Inside v w → Inside (.optional v) w
  | dynamic {v w} : Inside v w → Inside (.dynamic v) w
  | field {d v fs w} : (d, v) ∈ fs → Inside v w → Inside (.record fs) w
  | entry {k v es w} : (k, v) ∈ es → Inside v w → Inside (.map es) w
  | item {v n vs w} : v ∈ vs → Inside v w → Inside (.seq n vs) w

theorem Inside.trans {u v w : Value} (huv : Inside u v) (hvw : Inside v w) : Inside u w := by
  induction huv with
  | here => exact hvw
  | optional _ ih => exact .optional (ih hvw)
  | dynamic _ ih => exact .dynamic (ih hvw)
  | field hm _ ih => exact .field hm (ih hvw)
  | entry hm _ ih => exact .entry hm (ih hvw)
  | item hm _ ih => exact .item hm (ih hvw)

theorem sizeOf_lt_of_mem_pairs {α β : Type} [SizeOf α] [SizeOf β] {x : α} {y : β}
    {xs : List (α × β)} (h : (x, y) ∈ xs) : sizeOf y < sizeOf xs := by
  have hlt := List.sizeOf_lt_of_mem h
  rw [Prod.mk.sizeOf_spec] at hlt
  omega

@[elab_as_elim, induction_eliminator]
theorem Value.parts {motive : Value → Prop} (absent : motive .absent)
    (scalar : ∀ s, motive (.scalar s)) (special : ∀ s, motive (.special s))
    (optional : ∀ v, motive v → motive (.optional v))
    (dynamic : ∀ v, motive v → motive (.dynamic v))
    (record : ∀ fs, (∀ d v, (d, v) ∈ fs → motive v) → motive (.record fs))
    (map : ∀ es, (∀ k v, (k, v) ∈ es → motive v) → motive (.map es))
    (seq : ∀ n vs, (∀ v ∈ vs, motive v) → motive (.seq n vs))
    (unsupported : motive .unsupported) (faulty : ∀ f, motive (.faulty f))
    (broken : ∀ kind f, motive (.broken kind f)) : ∀ v, motive v
  | .absent => absent
  | .scalar s => scalar s
  | .special s => special s
  | .optional v => optional v
    (parts absent scalar special optional dynamic record map seq unsupported faulty broken v)
  | .dynamic v => dynamic v
    (parts absent scalar special optional dynamic record map seq unsupported faulty broken v)
  | .record fs => record fs fun _ v hv =>
    have := sizeOf_lt_of_mem_pairs hv
    parts absent scalar special optional dynamic record map seq unsupported faulty broken v
  | .map es => map es fun _ v hv =>
    have := sizeOf_lt_of_mem_pairs hv
    parts absent scalar special optional dynamic record map seq unsupported faulty broken v
  | .seq n vs => seq n vs fun v _ =>
    parts absent scalar special optional dynamic record map seq unsupported faulty broken v
  | .unsupported => unsupported
  | .faulty f => faulty f
  | .broken kind f => broken kind f

end Abridge
