import ProtoSchema.Wire.Basic

/-!
# Readers

A reader takes something off the front of a byte string and leaves the rest. It takes at least one
byte (`Reader.shorter`), so that reading over and over ends: `Reader.all` reads to the end of its
input, `Reader.within` reads until a given number of bytes is used up.
-/

namespace ProtoSchema

/-- What reading gives: an error, or a value and the rest of the input. -/
abbrev Reading (ε α : Type) := Except ε (α × Bytes)

/-- A reader of one thing. -/
structure Reader (ε α : Type) where
  read : Bytes → Reading ε α
  shorter : ∀ {bs a rest}, read bs = .ok (a, rest) → rest.length < bs.length

namespace Reader

variable {ε ε' α β : Type}

/-- Refuses every input. -/
def fail (e : ε) : Reader ε α where
  read _ := .error e
  shorter h := nomatch h

/-- Goes on with what has been read, if it can be. -/
def check (r : Reader ε α) (f : α → Except ε β) : Reader ε β where
  read bs :=
    match r.read bs with
    | .error e => .error e
    | .ok (a, rest) => (f a).map (·, rest)
  shorter {bs b rest} h := by
    split at h
    · simp at h
    · rename_i a rest' hr
      cases hf : f a with
      | error e => simp [hf, Except.map] at h
      | ok b' =>
        simp only [hf, Except.map, Except.ok.injEq, Prod.mk.injEq] at h
        exact h.2 ▸ r.shorter hr

/-- Reads, and turns what was read into something else. -/
def map (f : α → β) (r : Reader ε α) : Reader ε β := r.check fun a => .ok (f a)

/-- Reads, and says more about an error. -/
def mapError (f : ε → ε') (r : Reader ε α) : Reader ε' α where
  read bs :=
    match r.read bs with
    | .error e => .error (f e)
    | .ok x => .ok x
  shorter {bs a rest} h := by
    split at h
    · simp at h
    · rename_i x hr
      obtain rfl := Except.ok.inj h
      exact r.shorter hr

/-- Reads, and goes on with a step that depends on what was read and may take nothing. -/
def andThen (r : Reader ε α) (step : α → Bytes → Reading ε β)
    (le : ∀ {a bs b rest}, step a bs = .ok (b, rest) → rest.length ≤ bs.length) :
    Reader ε β where
  read bs :=
    match r.read bs with
    | .error e => .error e
    | .ok (a, rest) => step a rest
  shorter {bs b rest} h := by
    split at h
    · simp at h
    · rename_i a rest' hr
      exact Nat.lt_of_le_of_lt (le h) (r.shorter hr)

/-- Reads, and goes on with a reader that depends on what was read. -/
def bind (r : Reader ε α) (f : α → Reader ε β) : Reader ε β :=
  r.andThen (fun a => (f a).read) fun h => Nat.le_of_lt ((f _).shorter h)

/-- Reads to the end of the input. -/
def all (r : Reader ε α) (bs : Bytes) : Except ε (List α) :=
  if bs = [] then .ok []
  else
    match _h : r.read bs with
    | .error e => .error e
    | .ok (a, rest) => (r.all rest).map (a :: ·)
termination_by bs.length
decreasing_by exact r.shorter _h

/-- Reads until `n` bytes are used up. Reading further is the error `exceeded`. -/
def within (r : Reader ε α) (exceeded : ε) (n : Nat) (bs : Bytes) : Reading ε (List α) :=
  if n = 0 then .ok ([], bs)
  else
    match _h : r.read bs with
    | .error e => .error e
    | .ok (a, rest) =>
      if n < bs.length - rest.length then .error exceeded
      else
        (r.within exceeded (n - (bs.length - rest.length)) rest).map fun (as, rest) =>
          (a :: as, rest)
termination_by bs.length
decreasing_by exact r.shorter _h

theorem length_within {r : Reader ε α} {exceeded : ε} {n : Nat} {bs : Bytes} {as : List α}
    {rest : Bytes} (h : r.within exceeded n bs = .ok (as, rest)) : rest.length ≤ bs.length := by
  fun_induction within r exceeded n bs generalizing as rest with
  | case1 => simp_all
  | case2 => simp at h
  | case3 => simp at h
  | case4 n bs hn a rest' hr hused ih =>
    cases hw : r.within exceeded (n - (bs.length - rest'.length)) rest' with
    | error e => simp [hw, Except.map] at h
    | ok x =>
      obtain ⟨as', last⟩ := x
      simp only [hw, Except.map, Except.ok.injEq, Prod.mk.injEq] at h
      have hle := ih hw
      have hlt := r.shorter hr
      rw [← h.2]
      omega

end Reader

end ProtoSchema
