import Abridge.Trim

/-!
Hidden names. A policy hides the fields of a record that are not emitted, or emitted under a name
that is not visible, and the entries of a map whose key is not visible. `redact` strikes all of
them out of a value, at any depth. The trimmer sees no difference: it treats a value and its
redaction alike, so two values with one redaction have one tree, or panic alike, whatever stands
behind their hidden names.
-/
namespace Abridge

/-- Does a record with such a field show it? -/
def Policy.shows (p : Policy) (d : Descriptor) : Bool := d.emitted?.any p.isVisible

mutual

/-- The value without what stands behind hidden names, at any depth. -/
def Value.redact (p : Policy) : Value → Value
  | .optional v => .optional (v.redact p)
  | .dynamic v => .dynamic (v.redact p)
  | .record fs => .record (redactFields p fs)
  | .map es => .map (redactEntries p es)
  | .seq n vs => .seq n (redactItems p vs)
  | v => v

def redactFields (p : Policy) : List (Descriptor × Value) → List (Descriptor × Value)
  | [] => []
  | (d, v) :: rest =>
    if p.shows d then (d, v.redact p) :: redactFields p rest else redactFields p rest

def redactEntries (p : Policy) : List (String × Value) → List (String × Value)
  | [] => []
  | (k, v) :: rest =>
    if p.isVisible k then (k, v.redact p) :: redactEntries p rest else redactEntries p rest

def redactItems (p : Policy) : List Value → List Value
  | [] => []
  | v :: rest => v.redact p :: redactItems p rest

end

/-! ### Fields and entries, hidden or shown -/

theorem fields_cons_of_hidden {p : Policy} {d : Descriptor} (h : p.shows d = false) (depth : Int)
    (out : Entries Tree) (v : Value) (rest : List (Descriptor × Value)) :
    fields p depth out ((d, v) :: rest) = fields p depth out rest := by
  rw [fields]
  cases hd : d.emitted? with
  | none => rfl
  | some name =>
    have hn : p.isVisible name = false := by simpa [Policy.shows, hd] using h
    simp [hn]

theorem entries_cons_of_hidden {p : Policy} {k : String} (h : p.isVisible k = false) (depth : Int)
    (out : Entries Tree) (v : Value) (rest : List (String × Value)) :
    entries p depth out ((k, v) :: rest) = entries p depth out rest := by
  simp [entries, h]

theorem fields_cons_of_shown {p : Policy} {d : Descriptor} {name : String}
    (hd : d.emitted? = some name) (hn : p.isVisible name = true) (depth : Int) (out : Entries Tree)
    (v : Value) (rest : List (Descriptor × Value)) :
    fields p depth out ((d, v) :: rest) =
      (look p .field false depth v).bind fun s => fields p depth (s.asField name out) rest := by
  rw [fields, hd]
  simp only [hn, if_true]
  rfl

theorem entries_cons_of_shown {p : Policy} {k : String} (hk : p.isVisible k = true) (depth : Int)
    (out : Entries Tree) (v : Value) (rest : List (String × Value)) :
    entries p depth out ((k, v) :: rest) =
      (look p .entry false depth v).bind fun s => entries p depth (s.asEntry k out) rest := by
  rw [entries, if_pos hk]
  rfl

/-! ### A value and its redaction -/

mutual

/-- A look at a redacted value sees what a look at the value sees. -/
theorem look_redact (p : Policy) (place : Place) (opened : Bool) (depth : Int) :
    ∀ v : Value, look p place opened depth (v.redact p) = look p place opened depth v
  | .absent | .scalar _ | .special _ | .unsupported | .faulty _ | .broken _ _ => by
    simp only [Value.redact]
  | .optional v => by simp only [Value.redact, look, look_redact p place true depth v]
  | .dynamic v => by simp only [Value.redact, look, look_redact p .root false _ v]
  | .record fs => by simp only [Value.redact, look, fields_redact p _ fs]
  | .map es => by simp only [Value.redact, look, entries_redact p _ es]
  | .seq n vs => by simp only [Value.redact, look, items_redact p depth vs]

theorem fields_redact (p : Policy) (depth : Int) : ∀ (fs : List (Descriptor × Value))
    (out : Entries Tree), fields p depth out (redactFields p fs) = fields p depth out fs
  | [], _ => by simp only [redactFields]
  | (d, v) :: rest, out => by
    rw [redactFields]
    cases hd : p.shows d with
    | false =>
      rw [if_neg (by simp), fields_redact p depth rest, fields_cons_of_hidden hd]
    | true =>
      rw [if_pos rfl]
      simp only [fields, look_redact p .field false depth v, fields_redact p depth rest]

theorem entries_redact (p : Policy) (depth : Int) : ∀ (es : List (String × Value))
    (out : Entries Tree), entries p depth out (redactEntries p es) = entries p depth out es
  | [], _ => by simp only [redactEntries]
  | (k, v) :: rest, out => by
    rw [redactEntries]
    cases hk : p.isVisible k with
    | false =>
      rw [if_neg (by simp), entries_redact p depth rest, entries_cons_of_hidden hk]
    | true =>
      rw [if_pos rfl]
      simp only [entries, look_redact p .entry false depth v, entries_redact p depth rest]

theorem items_redact (p : Policy) (depth : Int) : ∀ (vs : List Value) (n : Nat),
    items p depth n (redactItems p vs) = items p depth n vs
  | [], _ => by simp only [redactItems]
  | v :: rest, 0 => by simp only [redactItems, items]
  | v :: rest, n + 1 => by
    simp only [redactItems, items, look_redact p .item false depth v, items_redact p depth rest]

end

theorem trim_redact (p : Policy) (v : Value) : (v.redact p).trim p = v.trim p := by
  rw [Value.trim, Value.trim, look_redact]

/-- Values that differ only behind hidden names have the same tree, or the same panic. -/
theorem trim_eq_of_redact_eq {p : Policy} {v w : Value} (h : v.redact p = w.redact p) :
    v.trim p = w.trim p := by
  calc v.trim p = (v.redact p).trim p := by simp only [Value.trim, look_redact]
    _ = (w.redact p).trim p := by rw [h]
    _ = w.trim p := by simp only [Value.trim, look_redact]

/-- The same login with a password, or with a token that panics when it is looked at. -/
theorem trim_eq_of_redact_eq_login :
    let p := Policy.standard.ignore "password"
    let login := fun secret : Descriptor × Value =>
      Value.map [("logins", .list [.dynamic (.optional
        (.record [secret, (⟨"user", none⟩, .text "bob")]))])]
    let v := login (⟨"password", none⟩, .text "hunter2")
    let w := login (⟨"token", some "-"⟩, .faulty .wordless)
    v.redact p = w.redact p ∧ v.trim p = w.trim p :=
  ⟨rfl, trim_eq_of_redact_eq rfl⟩

end Abridge
