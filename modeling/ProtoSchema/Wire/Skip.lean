import ProtoSchema.Wire.Varint

/-!
# Skipping

Reading past the value of a field that is not known. A group ends with an end key of its own number;
groups may nest only as deep as a budget allows.
-/

namespace ProtoSchema.Reader

/-- Reads the records of a group and its end; `inner` reads past a record behind its key. -/
def skipGroup (tag : Nat) (inner : Key → Reader WireFault Unit) (bs : Bytes) :
    Reading WireFault Unit :=
  match _h : key.read bs with
  | .error e => .error e
  | .ok (k, rest) =>
    if k.type = .endGroup then
      if k.tag = tag then .ok ((), rest) else .error .unexpectedEndGroup
    else
      match _h' : (inner k).read rest with
      | .error e => .error e
      | .ok (_, rest) => skipGroup tag inner rest
termination_by bs.length
decreasing_by exact Nat.lt_trans ((inner k).shorter _h') (key.shorter _h)

theorem length_skipGroup {tag : Nat} {inner : Key → Reader WireFault Unit} {bs rest : Bytes}
    (h : skipGroup tag inner bs = .ok ((), rest)) : rest.length < bs.length := by
  fun_induction skipGroup tag inner bs with
  | case1 => simp at h
  | case2 bs k rest' hk =>
    simp only [Except.ok.injEq, Prod.mk.injEq, true_and] at h
    exact h ▸ key.shorter hk
  | case3 => simp at h
  | case4 => simp at h
  | case5 bs k rest' hk hend u rest'' hi ih =>
    exact Nat.lt_trans (ih h) (Nat.lt_trans ((inner k).shorter hi) (key.shorter hk))

/-- Reads the records of a group and its end. -/
def group (tag : Nat) (inner : Key → Reader WireFault Unit) : Reader WireFault Unit where
  read := skipGroup tag inner
  shorter := length_skipGroup

/-- Reads past the value of a record, the key of which has been read. -/
def skip : (budget : Nat) → Key → Reader WireFault Unit
  | 0, _ => fail .recursionLimit
  | budget + 1, k =>
    match k.type with
    | .varint => varint.map fun _ => ()
    | .eightBytes => (fixed 8 (by decide)).map fun _ => ()
    | .delimited => delimited.map fun _ => ()
    | .startGroup => group k.tag (skip budget)
    | .endGroup => fail .unexpectedEndGroup
    | .fourBytes => (fixed 4 (by decide)).map fun _ => ()

end ProtoSchema.Reader
