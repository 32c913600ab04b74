import ProtoSchema.Proofs.Descriptor.Levels
import ProtoSchema.Proofs.Wire.Scalar

/-!
# Descriptors from bytes and back

What is written of descriptors is read back, as long as it nests no deeper than the budget, and at the
first level below that reading ends in the recursion limit (`decodeSet_encodeSet`). Building a schema
asks nothing about depth, so a pool can have bytes that are not read; a pool that was read has bytes
that are (`Pool.bytes_roundtrip`).

Reading a message walks through its records, each of which changes what has been read so far. `Walks`
says what a run of bytes adds to a walk, with the exact condition for it: where the condition fails, the
walk ends at the limit. One rule for each form of record and one for bytes behind bytes put the codec
together from its parts.
-/

namespace ProtoSchema

namespace Descriptor

variable {α β : Type}

/-! ## Reading to the limit -/

/-- The recursion limit was reached, in whatever field. -/
def AtLimit (x : Except ReadError α) : Prop := ∃ path, x = .error ⟨path, .recursionLimit⟩

/-- The reader gives the value for the bytes, whatever follows, if the condition holds, and else reaches
the limit. -/
def Gives (r : Reader ReadError α) (P : Prop) (bs : Bytes) (a : α) : Prop :=
  bs.Addressable → ∀ rest,
    (P → r.read (bs ++ rest) = .ok (a, rest)) ∧ (¬P → AtLimit (r.read (bs ++ rest)))

theorem Gives.congr {r : Reader ReadError α} {P Q : Prop} {bs : Bytes} {a : α} (h : Gives r P bs a)
    (hPQ : P ↔ Q) : Gives r Q bs a := propext hPQ ▸ h

/-- Goes through records until `n` bytes are used up, and changes the message by each. -/
def walk (r : Reader ReadError (α → α)) (n : Nat) (m : α) (bs : Bytes) : Reading ReadError α :=
  (r.within (ReadError.ofFault .lengthExceeded) n bs).map fun (changes, rest) =>
    (changes.foldl (fun m f => f m) m, rest)

/-- The bytes change the message to the other one in a walk, whatever follows, if the condition holds,
and else the walk ends at the limit. -/
def Walks (r : Reader ReadError (α → α)) (P : Prop) (bs : Bytes) (m m' : α) : Prop :=
  bs.Addressable → ∀ n rest,
    (P → walk r (bs.length + n) m (bs ++ rest) = walk r n m' rest) ∧
      (¬P → AtLimit (walk r (bs.length + n) m (bs ++ rest)))

section Walk

variable {r : Reader ReadError (α → α)} {m : α}

theorem walk_zero (bs : Bytes) : walk r 0 m bs = .ok (m, bs) := by
  rw [walk, Reader.within, if_pos rfl]
  rfl

theorem walk_ok {change : α → α} {bs rest : Bytes} (h : r.read (bs ++ rest) = .ok (change, rest))
    (n : Nat) : walk r (bs.length + n) m (bs ++ rest) = walk r n (change m) rest := by
  have hlt := r.shorter h
  rw [List.length_append] at hlt
  have hused : (bs ++ rest).length - rest.length = bs.length := by
    rw [List.length_append, Nat.add_sub_cancel]
  rw [walk, walk, Reader.within_ok (by omega) h, hused, if_neg (by omega), Nat.add_sub_cancel_left]
  cases r.within (ReadError.ofFault .lengthExceeded) n rest <;> rfl

theorem walk_error {e : ReadError} {n : Nat} {bs : Bytes} (hn : n ≠ 0) (h : r.read bs = .error e) :
    walk r n m bs = .error e := by
  rw [walk, Reader.within_error hn h]
  rfl

/-- Reading to the end of the input is a walk of its length. -/
theorem map_all (bs : Bytes) : (r.all bs).map (·.foldl (fun m f => f m) m) =
    (walk r bs.length m bs).map Prod.fst := by
  rw [r.all_eq_within (ReadError.ofFault .lengthExceeded), walk]
  cases r.within (ReadError.ofFault .lengthExceeded) bs.length bs <;> rfl

end Walk

/-! ## Walks from parts -/

namespace AtLimit

theorem map {x : Except ReadError α} (h : AtLimit x) (f : α → β) : AtLimit (x.map f) := by
  obtain ⟨path, rfl⟩ := h
  exact ⟨path, rfl⟩

end AtLimit

namespace Walks

variable {r : Reader ReadError (α → α)} {P Q : Prop} {as bs : Bytes} {m m' m'' : α}

theorem nil : Walks r True [] m m := by
  intro _ n rest
  rw [List.length_nil, Nat.zero_add, List.nil_append]
  exact ⟨fun _ => rfl, fun h => absurd trivial h⟩

/-- **Bytes behind bytes change the message one after the other.** -/
theorem append (h : Walks r P as m m') (h' : Walks r Q bs m' m'') :
    Walks r (P ∧ Q) (as ++ bs) m m'' := by
  intro hlen n rest
  obtain ⟨hok, hlimit⟩ := h (hlen.of_le (by rw [List.length_append]; omega)) (bs.length + n)
    (bs ++ rest)
  obtain ⟨hok', hlimit'⟩ := h' (hlen.of_le (by rw [List.length_append]; omega)) n rest
  rw [List.length_append, Nat.add_assoc, List.append_assoc]
  by_cases hP : P
  · rw [hok hP]
    exact ⟨fun hPQ => hok' hPQ.2, fun hPQ => hlimit' fun hQ => hPQ ⟨hP, hQ⟩⟩
  · exact ⟨fun hPQ => absurd hPQ.1 hP, fun _ => hlimit hP⟩

theorem congr (h : Walks r P bs m m') (hPQ : P ↔ Q) : Walks r Q bs m m' := propext hPQ ▸ h

/-- A record changes the message as it says. -/
theorem of_gives {change : α → α} (hne : bs ≠ []) (h : Gives r P bs change) :
    Walks r P bs m (change m) := by
  intro hlen n rest
  obtain ⟨hok, hlimit⟩ := h hlen rest
  refine ⟨fun hP => walk_ok (hok hP) n, fun hP => ?_⟩
  obtain ⟨path, he⟩ := hlimit hP
  have hpos := List.length_pos_of_ne_nil hne
  exact ⟨path, walk_error (by omega) he⟩

/-- **Parts that each add themselves to a list are all added.** -/
theorem flatMap {write : β → Bytes} {holds : β → Prop} (put : List β → α) {xs : List β}
    (h : ∀ x ∈ xs, ∀ before, Walks r (holds x) (write x) (put before) (put (before ++ [x]))) :
    ∀ before, Walks r (∀ x ∈ xs, holds x) (xs.flatMap write) (put before) (put (before ++ xs)) := by
  induction xs with
  | nil =>
    intro before
    rw [List.append_nil]
    exact nil.congr ⟨fun _ x hx => absurd hx List.not_mem_nil, fun _ => trivial⟩
  | cons x xs ih =>
    intro before
    rw [List.forall_mem_cons] at h
    rw [List.append_cons, List.flatMap_cons]
    exact ((h.1 before).append (ih h.2 _)).congr List.forall_mem_cons.symm

end Walks

/-! ## Records -/

section Record

variable {message name : String} {budget tag : Nat} {known : Nat → Option (Known α)}

/-- The number is one that a field can have. -/
def FieldNumber (tag : Nat) : Prop := 1 ≤ tag ∧ tag ≤ 536870911

instance : Decidable (FieldNumber tag) := inferInstanceAs (Decidable (_ ∧ _))

theorem key_append_ne_nil (type : WireType) (bs : Bytes) : Wire.key tag type ++ bs ≠ [] := fun h =>
  Wire.varint_ne_nil _ (List.append_eq_nil_iff.1 h).1

/-- **A record of a known field changes the message as the field says.** -/
theorem walks_record {f : Known α} (htag : FieldNumber tag) (hknown : known tag = some f)
    {type : WireType} {P : Prop} {bs : Bytes} {change : α → α}
    (h : Gives (f.read type) P bs change) (m : α) :
    Walks (record message budget known) P (Wire.key tag type ++ bs) m (change m) := by
  refine Walks.of_gives (key_append_ne_nil type bs) fun hlen rest => ?_
  have hkey : (Reader.key.mapError ReadError.ofFault).read (Wire.key tag type ++ (bs ++ rest)) =
      .ok (⟨tag, type⟩, bs ++ rest) :=
    Reader.mapError_eq_ok_iff.2 (Reader.read_key type htag.1 htag.2)
  obtain ⟨hok, hlimit⟩ := h (hlen.of_le (by rw [List.length_append]; omega)) rest
  rw [List.append_assoc, Descriptor.record, Reader.read_bind _ hkey]
  simp only [hknown]
  refine ⟨fun hP => Reader.mapError_eq_ok_iff.2 (hok hP), fun hP => ?_⟩
  obtain ⟨path, he⟩ := hlimit hP
  refine ⟨path ++ [(message, f.name)], ?_⟩
  unfold Reader.mapError
  simp only [he]
  rfl

theorem gives_text (set : String → α → α) (s : String) :
    Gives ((Known.text name set).read .delimited) True (Wire.delimited (utf8 s)) (set s) := by
  intro hlen rest
  refine ⟨fun _ => Reader.mapError_eq_ok_iff.2 ?_, fun h => absurd trivial h⟩
  rw [Reader.ofType_self]
  exact Reader.read_map _ (Reader.read_text hlen)

theorem gives_int (set : Int32 → α → α) (n : Int32) :
    Gives ((Known.int name set).read .varint) True (Wire.signed n.toInt) (set n) := by
  intro _ rest
  refine ⟨fun _ => Reader.mapError_eq_ok_iff.2 ?_, fun h => absurd trivial h⟩
  rw [Reader.ofType_self]
  exact Reader.read_map _ (Reader.read_int32 n)

theorem gives_known_body {r : Reader ReadError β} {P : Prop} {bs : Bytes} {b : β}
    (add : β → α → α) (h : Gives r P bs b) :
    Gives ((Known.body name r add).read .delimited) P bs (add b) := by
  intro hlen rest
  obtain ⟨hok, hlimit⟩ := h hlen rest
  have hread : (Known.body name r add).read .delimited = r.map add := by simp [Known.body]
  rw [hread]
  refine ⟨fun hP => Reader.read_map _ (hok hP), fun hP => ?_⟩
  obtain ⟨path, he⟩ := hlimit hP
  refine ⟨path, ?_⟩
  unfold Reader.map Reader.check
  simp only [he]

namespace Walks

variable {P : Prop} {bs : Bytes} {m m' : α}

/-- **A text that may be left out is put where it is read.** -/
theorem text (h : Walks (record message budget known) P bs m m') (tag : Nat)
    (put : Option String → α) (s? : Option String) {set : String → α → α}
    (hstart : m' = put none := by rfl) (htag : FieldNumber tag := by decide)
    (hknown : known tag = some (.text name set) := by rfl)
    (hput : ∀ s, set s (put none) = put (some s) := by exact fun _ => rfl) :
    Walks (record message budget known) P (bs ++ textRecord tag s?) m (put s?) := by
  subst hstart
  refine congr (h.append (Q := True) ?_) (and_iff_left trivial)
  cases s? with
  | none => exact nil
  | some s =>
    rw [← hput]
    exact walks_record htag hknown (gives_text set s) _

/-- **A number that may be left out is put where it is read.** -/
theorem int (h : Walks (record message budget known) P bs m m') (tag : Nat)
    (put : Option Int32 → α) (n? : Option Int32) {set : Int32 → α → α}
    (hstart : m' = put none := by rfl) (htag : FieldNumber tag := by decide)
    (hknown : known tag = some (.int name set) := by rfl)
    (hput : ∀ n, set n (put none) = put (some n) := by exact fun _ => rfl) :
    Walks (record message budget known) P (bs ++ intRecord tag n?) m (put n?) := by
  subst hstart
  refine congr (h.append (Q := True) ?_) (and_iff_left trivial)
  cases n? with
  | none => exact nil
  | some n =>
    rw [← hput]
    exact walks_record htag hknown (gives_int set n) _

/-- **Texts are added where they are read.** -/
theorem texts (h : Walks (record message budget known) P bs m m') (tag : Nat)
    (put : List String → α) (xs : List String) {set : String → α → α}
    (hstart : m' = put [] := by rfl) (htag : FieldNumber tag := by decide)
    (hknown : known tag = some (.text name set) := by rfl)
    (hput : ∀ s before, set s (put before) = put (before ++ [s]) := by exact fun _ _ => rfl) :
    Walks (record message budget known) P (bs ++ xs.flatMap fun s => textRecord tag (some s)) m
      (put xs) := by
  subst hstart
  have hadd : ∀ s ∈ xs, ∀ before, Walks (record message budget known) True
      (textRecord tag (some s)) (put before) (put (before ++ [s])) := by
    intro s _ before
    rw [← hput]
    exact walks_record htag hknown (gives_text set s) _
  exact congr (h.append (flatMap put hadd [])) (and_iff_left fun _ _ => trivial)

/-- **Bodies are added where they are read.** -/
theorem bodies (h : Walks (record message budget known) P bs m m') (tag : Nat) (put : List β → α)
    {xs : List β} {write : β → Bytes} {holds : β → Prop} {r : Reader ReadError β}
    (hxs : ∀ x ∈ xs, Gives r (holds x) (Wire.delimited (write x)) x) {add : β → α → α}
    (hstart : m' = put [] := by rfl) (htag : FieldNumber tag := by decide)
    (hknown : known tag = some (.body name r add) := by rfl)
    (hput : ∀ b before, add b (put before) = put (before ++ [b]) := by exact fun _ _ => rfl) :
    Walks (record message budget known) (P ∧ ∀ x ∈ xs, holds x)
      (bs ++ xs.flatMap fun x => bodyRecord tag (write x)) m (put xs) := by
  subst hstart
  refine h.append (flatMap put (fun x hx before => ?_) [])
  rw [← hput]
  exact walks_record htag hknown (gives_known_body add (hxs x hx)) _

end Walks

/-- Without a budget no message is read. -/
theorem gives_body_zero {start : α} {record : Nat → Reader ReadError (α → α)} {bs : Bytes} {a : α} :
    Gives (body start record 0) False bs a := fun _ _ =>
  ⟨fun h => absurd h id, fun _ => ⟨[], rfl⟩⟩

/-- **A message is read back behind its length when its records walk from the start to it.** -/
theorem gives_body {start : α} {record : Nat → Reader ReadError (α → α)} {P : Prop} {bs : Bytes}
    {a : α} (h : Walks (record budget) P bs start a) :
    Gives (body start record (budget + 1)) P (Wire.delimited bs) a := by
  intro hlen rest
  have hbs := Reader.addressable_of_delimited hlen
  have hwalk := h hbs 0 rest
  have hread : (body start record (budget + 1)).read (Wire.delimited bs ++ rest) =
      walk (record budget) bs.length start (bs ++ rest) := by
    unfold body Reader.map Reader.check
    simp only [Reader.read_packed hbs]
    rw [walk]
    cases (record budget).within (ReadError.ofFault .lengthExceeded) bs.length (bs ++ rest) <;> rfl
  rw [hread]
  rwa [walk_zero] at hwalk

end Record

/-! ## The parts of descriptors -/

/-- **A field is read back when there is a budget for it.** -/
theorem Field.gives (f : Field) (budget : Nat) :
    Gives (body default (fun n => record "FieldDescriptorProto" n (Field.known n)) budget)
      (0 < budget) (Wire.delimited f.encode) f := by
  cases budget with
  | zero => exact gives_body_zero.congr (by simp)
  | succ b =>
    obtain ⟨name?, number?, label?, type?, typeName?, default?⟩ := f
    have h : Walks (record "FieldDescriptorProto" b (Field.known b)) True [] default default := .nil
    have h := h.text 1 (⟨·, none, none, none, none, none⟩) name?
    have h := h.int 3 (⟨name?, ·, none, none, none, none⟩) number?
    have h := h.int 4 (⟨name?, number?, ·, none, none, none⟩) label?
    have h := h.int 5 (⟨name?, number?, label?, ·, none, none⟩) type?
    have h := h.text 6 (⟨name?, number?, label?, type?, ·, none⟩) typeName?
    have h := h.text 7 (⟨name?, number?, label?, type?, typeName?, ·⟩) default?
    exact (gives_body h).congr (by simp)

/-- **An enum value is read back when there is a budget for it.** -/
theorem Value.gives (v : Value) (budget : Nat) :
    Gives (body default (fun n => record "EnumValueDescriptorProto" n (Value.known n)) budget)
      (0 < budget) (Wire.delimited v.encode) v := by
  cases budget with
  | zero => exact gives_body_zero.congr (by simp)
  | succ b =>
    obtain ⟨name?, number?⟩ := v
    have h : Walks (record "EnumValueDescriptorProto" b (Value.known b)) True [] default default :=
      .nil
    have h := h.text 1 (⟨·, none⟩) name?
    have h := h.int 2 (⟨name?, ·⟩) number?
    exact (gives_body h).congr (by simp)

/-- **An enum is read back when its levels are within the budget.** -/
theorem Enum.gives (e : Enum) (level budget : Nat) : Gives (Enum.body budget)
    (∀ l ∈ e.levels level, l < level + budget) (Wire.delimited e.encode) e := by
  cases budget with
  | zero => exact gives_body_zero.congr (by simp [Enum.levels])
  | succ b =>
    have hlevels : (True ∧ ∀ _v ∈ e.values, 0 < b) ↔ ∀ l ∈ e.levels level, l < level + (b + 1) := by
      rw [Enum.forall_levels]
      refine and_congr (by simp) (forall₂_congr fun v hv => ?_)
      omega
    obtain ⟨name?, values⟩ := e
    have h : Walks (record "EnumDescriptorProto" b (Enum.known b)) True [] default default := .nil
    have h := h.text 1 (⟨·, []⟩) name?
    have h := h.bodies 2 (⟨name?, ·⟩) fun v (_ : v ∈ values) => v.gives b
    exact (gives_body h).congr hlevels

namespace Message

theorem encodeList_eq_flatMap (tag : Nat) (ms : List Message) :
    encodeList tag ms = ms.flatMap fun m => bodyRecord tag m.encode := by
  induction ms with
  | nil => rw [encodeList, List.flatMap_nil]
  | cons m ms ih => rw [encodeList, ih, List.flatMap_cons]

mutual

/-- **A message is read back when its levels are within the budget.** -/
theorem gives : ∀ (m : Message) (level budget : Nat), Gives (Message.body budget)
    (∀ l ∈ m.levels level, l < level + budget) (Wire.delimited m.encode) m
  | ⟨name?, fields, messages, enums⟩, level, 0 => by
    rw [body_eq]
    refine gives_body_zero.congr ⟨False.elim, fun h => ?_⟩
    exact absurd (forall_levels.1 h).1 (Nat.lt_irrefl _)
  | ⟨name?, fields, messages, enums⟩, level, b + 1 => by
    have h : Walks (record "DescriptorProto" b (known b (Message.body b))) True [] default default :=
      .nil
    have h := h.text 1 (⟨·, [], [], []⟩) name?
    have h := h.bodies 2 (⟨name?, ·, [], []⟩) fun f (_ : f ∈ fields) => f.gives b
    have h := h.bodies 3 (⟨name?, fields, ·, []⟩) fun m hm => gives_list messages m hm (level + 1) b
    have h := h.bodies 4 (⟨name?, fields, messages, ·⟩) fun e (_ : e ∈ enums) => e.gives (level + 1) b
    have hlevels : (((True ∧ ∀ _f ∈ fields, 0 < b) ∧
        ∀ m ∈ messages, ∀ l ∈ m.levels (level + 1), l < level + 1 + b) ∧
          ∀ e ∈ enums, ∀ l ∈ e.levels (level + 1), l < level + 1 + b) ↔
        ∀ l ∈ levels level ⟨name?, fields, messages, enums⟩, l < level + (b + 1) := by
      have hb : level + (b + 1) = level + 1 + b := by omega
      rw [forall_levels, hb, true_and, and_assoc]
      simp only [show level < level + 1 + b by omega, true_and, Nat.lt_add_right_iff_pos]
    rw [encode, encodeList_eq_flatMap, body_eq]
    exact (gives_body h).congr hlevels

theorem gives_list : ∀ (ms : List Message), ∀ m ∈ ms, ∀ level budget, Gives (Message.body budget)
    (∀ l ∈ m.levels level, l < level + budget) (Wire.delimited m.encode) m
  | [] => fun _ hm => absurd hm List.not_mem_nil
  | m :: ms => List.forall_mem_cons.2 ⟨gives m, gives_list ms⟩

end

end Message

/-- **A file is read back when its levels are within the budget.** -/
theorem File.gives (f : File) (budget : Nat) :
    Gives (body default (fun n => record "FileDescriptorProto" n (File.known n)) budget)
      (∀ l ∈ f.levels, l < budget + 1) (Wire.delimited f.encode) f := by
  cases budget with
  | zero =>
    refine gives_body_zero.congr ⟨False.elim, fun h => ?_⟩
    exact absurd (File.forall_levels.1 h).1 (Nat.lt_irrefl _)
  | succ b =>
    obtain ⟨name?, package?, dependencies, messages, enums⟩ := f
    have h : Walks (record "FileDescriptorProto" b (File.known b)) True [] default default := .nil
    have h := h.text 1 (⟨·, none, [], [], []⟩) name?
    have h := h.text 2 (⟨name?, ·, [], [], []⟩) package?
    have h := h.texts 3 (⟨name?, package?, ·, [], []⟩) dependencies
    have h := h.bodies 4 (⟨name?, package?, dependencies, ·, []⟩)
      fun m (_ : m ∈ messages) => m.gives 2 b
    have h := h.bodies 5 (⟨name?, package?, dependencies, messages, ·⟩)
      fun e (_ : e ∈ enums) => e.gives 2 b
    have hlevels : ((True ∧ ∀ m ∈ messages, ∀ l ∈ m.levels 2, l < 2 + b) ∧
        ∀ e ∈ enums, ∀ l ∈ e.levels 2, l < 2 + b) ↔
          ∀ l ∈ File.levels ⟨name?, package?, dependencies, messages, enums⟩, l < b + 1 + 1 := by
      have hb : b + 1 + 1 = 2 + b := by omega
      rw [File.forall_levels, hb, true_and]
      simp only [show 1 < 2 + b by omega, true_and]
    rw [encode, Message.encodeList_eq_flatMap]
    exact (gives_body h).congr hlevels

/-- **Files are read back from their bytes when their levels are within the budget, and else reading
them ends in the recursion limit.** -/
theorem decodeSet_encodeSet {files : List File} (hlen : (encodeSet files).Addressable) :
    ((∀ l ∈ levels files, l ≤ nestingBudget) → decodeSet (encodeSet files) = .ok files) ∧
      ((∃ l ∈ levels files, nestingBudget < l) → AtLimit (decodeSet (encodeSet files))) := by
  have hwalk : Walks (record "FileDescriptorSet" nestingBudget (fileSetKnown nestingBudget)) True []
      [] [] := .nil
  have hwalk := hwalk.bodies 1 id fun f (_ : f ∈ files) => f.gives nestingBudget
  obtain ⟨hok, hlimit⟩ := hwalk hlen 0 []
  have hlevels : (∀ l ∈ levels files, l ≤ nestingBudget) ↔
      True ∧ ∀ f ∈ files, ∀ l ∈ f.levels, l < nestingBudget + 1 := by
    rw [levels, List.forall_mem_flatMap, true_and]
    simp only [Nat.lt_succ_iff]
  simp only [List.append_nil, Nat.add_zero, List.nil_append, id_eq] at hok hlimit
  rw [decodeSet, map_all, encodeSet]
  constructor
  · intro h
    rw [hok (hlevels.1 h), walk_zero]
    rfl
  · rintro ⟨l, hl, hlt⟩
    refine (hlimit fun h => ?_).map Prod.fst
    exact absurd (hlevels.2 h l hl) (Nat.not_le.2 hlt)

end Descriptor

namespace Pool

open Descriptor

/-- The levels of all that stands in the pool's descriptors. -/
def levels (p : Pool) : List Nat := Descriptor.levels p.describe

/-- The bytes of a consistent pool give it again exactly when it nests no deeper than the budget. -/
theorem Consistent.ofBytes_toBytes {p : Pool} (h : p.Consistent) (hlen : p.toBytes.Addressable) :
    ((∀ l ∈ p.levels, l ≤ 100) → ofBytes p.toBytes = .ok p) ∧
      ((∃ l ∈ p.levels, 100 < l) →
        ∃ path, ofBytes p.toBytes = .error (.unreadable ⟨path, .recursionLimit⟩)) := by
  obtain ⟨hok, hlimit⟩ := decodeSet_encodeSet hlen
  constructor
  · intro hlevels
    unfold ofBytes toBytes
    rw [hok hlevels]
    exact h.ofDescriptors_describe
  · intro hlevels
    obtain ⟨path, he⟩ := hlimit hlevels
    refine ⟨path, ?_⟩
    unfold ofBytes toBytes
    rw [he]

/-- A pool that was read from bytes nests no deeper than the budget. -/
theorem levels_of_ofBytes {bs : Bytes} {p : Pool} (h : ofBytes bs = .ok p) :
    p.Reachable ∧ ∀ l ∈ p.levels, l ≤ 100 := by
  unfold ofBytes at h
  split at h
  · simp at h
  · next files hfiles =>
    refine ⟨.parse h, ?_⟩
    rw [levels, describe_of_ofDescriptors h, levels_normal]
    exact levels_of_decodeSet hfiles

/-- **A pool is read back from its bytes exactly when nothing stands below the hundredth level**, and
what was read from any bytes is read back from its own. -/
theorem bytes_roundtrip :
    (∀ p : Pool, p.Reachable → p.toBytes.Addressable →
      ((∀ l ∈ p.levels, l ≤ 100) → ofBytes p.toBytes = .ok p) ∧
        ((∃ l ∈ p.levels, 100 < l) →
          ∃ path, ofBytes p.toBytes = .error (.unreadable ⟨path, .recursionLimit⟩))) ∧
      ∀ bs q, ofBytes bs = .ok q → q.toBytes.Addressable → ofBytes q.toBytes = .ok q := by
  refine ⟨fun p h hlen => h.consistent.ofBytes_toBytes hlen, ?_⟩
  intro bs q h hlen
  obtain ⟨hreach, hlevels⟩ := levels_of_ofBytes h
  exact (hreach.consistent.ofBytes_toBytes hlen).1 hlevels

end Pool

/-! ## Schemas that nest deep -/

namespace Descriptor

/-- A short body takes four bytes more as a record. -/
theorem length_bodyRecord_le (tag : Nat) (bs : Bytes) (htag : tag < 16)
    (hbs : bs.length < 128 ^ 3) : (bodyRecord tag bs).length ≤ bs.length + 4 := by
  have hkey : (Wire.key tag .delimited).length ≤ 1 :=
    Wire.length_varint_le 0 _ (by simp only [WireType.number]; omega)
  have hlen : (Wire.varint bs.length).length ≤ 3 := Wire.length_varint_le 2 _ hbs
  rw [bodyRecord, Wire.delimited, List.length_append, List.length_append]
  omega

namespace Message

/-- A message with `n` more messages, each nested in the one before. -/
def deep : Nat → Message
  | 0 => ⟨some "Deep", [], [], []⟩
  | n + 1 => ⟨some "Deep", [], [deep n], []⟩

theorem normal_deep (n : Nat) : (deep n).normal = deep n := by
  induction n with
  | zero => rfl
  | succ n ih => rw [deep, normal, normalList, normalList, ih, List.map_nil, List.map_nil]

theorem length_encode_deep {n : Nat} (hn : n ≤ 100) : (deep n).encode.length ≤ 8 + 12 * n := by
  have hname : (textRecord 1 (some "Deep")).length ≤ 8 :=
    length_bodyRecord_le 1 (utf8 "Deep") (by decide) (by decide)
  induction n with
  | zero => simpa [deep, encode, encodeList] using hname
  | succ n ih =>
    have hle := ih (by omega)
    have hnested : (bodyRecord 3 (deep n).encode).length ≤ (deep n).encode.length + 4 :=
      length_bodyRecord_le 3 _ (by decide) (by omega)
    simp only [deep, encode, encodeList, List.flatMap_nil, List.append_nil, List.length_append]
    omega

theorem levels_deep (n level : Nat) : (∀ l ∈ (deep n).levels level, l ≤ level + n) ∧
    level + n ∈ (deep n).levels level := by
  induction n generalizing level with
  | zero => simp [deep, levels, levelsList]
  | succ n ih =>
    obtain ⟨hle, hmem⟩ := ih (level + 1)
    have hn : level + 1 + n = level + (n + 1) := by omega
    rw [hn] at hle hmem
    simp only [deep, levels, levelsList, List.map_nil, List.flatMap_nil, List.nil_append,
      List.append_nil, List.forall_mem_cons]
    exact ⟨⟨by omega, hle⟩, List.mem_cons_of_mem _ hmem⟩

theorem length_lt_qualify (scope : String) :
    scope.length < (Name.qualify scope "Deep").length := by
  unfold Name.qualify
  split
  · next h =>
    rw [h]
    decide
  · rw [String.length_append, String.length_append]
    have hdot : ".".length = 1 := by decide
    omega

/-- A described message with no fields and the name. -/
theorem wellFormed_bare {types : List Described} {scope : String} {messages : List Message} :
    Described.WellFormed types ⟨scope, .message ⟨some "Deep", [], messages, []⟩⟩ where
  name := ⟨"Deep", rfl, by decide, by decide⟩
  message m hm := by
    obtain rfl := NamedType.message.inj hm
    exact ⟨fun f hf => absurd hf List.not_mem_nil, List.nodup_nil, List.nodup_nil⟩
  enum e he := NamedType.noConfusion he

/-- The messages have longer and longer full names. -/
theorem wellFormed_deep (types : List Described) (n : Nat) : ∀ scope : String,
    (∀ x ∈ (deep n).described scope, x.WellFormed types ∧ scope.length < x.fullName.length) ∧
      (((deep n).described scope).map Described.fullName).Nodup := by
  induction n with
  | zero =>
    intro scope
    rw [deep, described, describedList, List.map_nil, List.append_nil]
    refine ⟨fun x hx => ?_, List.nodup_singleton _⟩
    obtain rfl := List.mem_singleton.1 hx
    exact ⟨wellFormed_bare, length_lt_qualify scope⟩
  | succ n ih =>
    intro scope
    obtain ⟨hall, hnodup⟩ := ih (Name.qualify scope "Deep")
    have hlt := length_lt_qualify scope
    rw [deep, described, describedList, describedList, List.map_nil, List.nil_append,
      List.append_nil, List.forall_mem_cons, List.map_cons, List.nodup_cons]
    refine ⟨⟨⟨wellFormed_bare, hlt⟩, fun x hx => ?_⟩, ?_, hnodup⟩
    · obtain ⟨hx, hlonger⟩ := hall x hx
      exact ⟨hx, Nat.lt_trans hlt hlonger⟩
    · intro hmem
      obtain ⟨x, hx, heq⟩ := List.mem_map.1 hmem
      have hlonger := (hall x hx).2
      rw [heq] at hlonger
      exact absurd hlonger (Nat.lt_irrefl _)

end Message

/-- A file whose message nests deep. -/
def File.deep (n : Nat) : File := ⟨some "deep.proto", none, [], [Message.deep n], []⟩

theorem wellFormed_deep (n : Nat) : WellFormed [File.deep n] := by
  have htypes : [File.deep n].flatMap File.described = (Message.deep n).described "" := by
    simp [File.deep, File.described, Message.describedList]
  have h := Message.wellFormed_deep ((Message.deep n).described "") n ""
  refine ⟨by simp, ?_, ?_⟩
  · rw [htypes]
    exact fun x hx => (h.1 x hx).1
  · rw [htypes]
    exact h.2

theorem File.normal_deep (n : Nat) : (File.deep n).normal = File.deep n := by
  unfold File.normal
  simp only [File.deep, Message.normalList, Message.normal_deep]
  rfl

/-- The bytes of the file are few. -/
theorem addressable_deep {n : Nat} (hn : n ≤ 100) : (encodeSet [File.deep n]).Addressable := by
  have hmessage := Message.length_encode_deep hn
  have hname : (textRecord 1 (some "deep.proto")).length ≤ 14 :=
    length_bodyRecord_le 1 (utf8 "deep.proto") (by decide) (by decide)
  have hbody := length_bodyRecord_le 4 (Message.deep n).encode (by decide) (by omega)
  have hfile : (File.deep n).encode.length ≤ 26 + 12 * n := by
    simp only [File.deep, File.encode, textRecord, Message.encodeList, List.flatMap_nil,
      List.append_nil, List.length_append] at hname ⊢
    omega
  have hset := length_bodyRecord_le 1 (File.deep n).encode (by decide) (by omega)
  have hspan : Numeral.span 64 = 18446744073709551616 := by decide
  rw [Bytes.Addressable, encodeSet, List.flatMap_singleton]
  omega

/-- A file that nests deep is described, by a schema whose levels go as deep. -/
theorem exists_deep {n : Nat} (hn : n ≤ 100) : ∃ p, Pool.ofDescriptors [File.deep n] = .ok p ∧
    p.toBytes.Addressable ∧ (∀ l ∈ p.levels, l ≤ n + 2) ∧ n + 2 ∈ p.levels := by
  obtain ⟨p, hp⟩ := (wellFormed_deep n).exists_pool
  have hlevels : p.levels = 1 :: (Message.deep n).levels 2 := by
    rw [Pool.levels, Pool.describe_of_ofDescriptors hp, levels_normal]
    simp [levels, File.levels, File.deep, Message.levelsList]
  obtain ⟨hle, hmem⟩ := Message.levels_deep n 2
  refine ⟨p, hp, ?_, ?_, ?_⟩
  · rw [Pool.toBytes, Pool.describe_of_ofDescriptors hp, List.map_singleton, File.normal_deep]
    exact addressable_deep hn
  · rw [hlevels, List.forall_mem_cons, Nat.add_comm n 2]
    exact ⟨by omega, hle⟩
  · rw [hlevels, Nat.add_comm n 2]
    exact List.mem_cons_of_mem _ hmem

end Descriptor

/-- The hundredth level is read back, and the next one is not. -/
theorem Pool.bytes_roundtrip_deep :
    (∃ p, ofDescriptors [Descriptor.File.deep 98] = .ok p ∧ ofBytes p.toBytes = .ok p ∧
      ∃ q, ofBytes p.toBytes = .ok q ∧ ofBytes q.toBytes = .ok q) ∧
      ∃ p, ofDescriptors [Descriptor.File.deep 99] = .ok p ∧
        ∃ path, ofBytes p.toBytes = .error (.unreadable ⟨path, .recursionLimit⟩) := by
  obtain ⟨p, hp, hlen, hle, -⟩ := Descriptor.exists_deep (show 98 ≤ 100 by decide)
  obtain ⟨q, hq, hlen', -, hmem⟩ := Descriptor.exists_deep (show 99 ≤ 100 by decide)
  have hread := (bytes_roundtrip.1 p (.parse hp) hlen).1 hle
  refine ⟨⟨p, hp, hread, p, hread, bytes_roundtrip.2 _ p hread hlen⟩, q, hq, ?_⟩
  exact (bytes_roundtrip.1 q (.parse hq) hlen').2 ⟨_, hmem, by decide⟩

end ProtoSchema
