import ProtoSchema.Proofs.Message.Concat
import ProtoSchema.Proofs.Message.Trim
import ProtoSchema.Proofs.Wire.Follow

/-!
# Decoding with fewer fields

Bytes that can be decoded as a message can be decoded as a message of a schema in which fields have
been deleted, and give what is left of it without these fields (`Message.decode_trim`). The records
of deleted fields are read past, which takes the same bytes as reading them
(`Decode.follows_skip_elements`).
-/

namespace ProtoSchema

open Reader

namespace Decode

variable {p q : Pool} {keeps : String → Nat → Bool} {t u : Nat}
  {body body' : Nat → Bytes → Except WireFault Content}

/-! ## Records of deleted fields -/

theorem follows_skip_values {α : Type} {r : Reader WireFault α} (h : r.SelfDelimiting)
    {budget tag : Nat} (packs : Bool) (actual expected : WireType)
    (hskip : (skip (budget + 1) ⟨tag, expected⟩).Follows r fun _ _ => True) :
    (skip (budget + 1) ⟨tag, actual⟩).Follows (values packs actual expected r)
      fun _ _ => True := by
  unfold values
  split
  · next hpacked =>
    rw [hpacked.2]
    exact (follows_delimited_packed h).map_left _
  · exact (follows_ofType (fun type => skip (budget + 1) ⟨tag, type⟩) actual hskip).of_map _

/-- **Reading past a record takes the bytes that reading it as one of a field takes.** -/
theorem follows_skip_elements (f : FieldDef) (k : Key) :
    (skip groupBudget k).Follows (elements p f k.type body) fun _ _ => True := by
  obtain ⟨tag, type⟩ := k
  unfold elements
  cases f.kind with
  | scalar t =>
    exact (follows_skip_values (selfDelimiting_scalar t) _ _ _ (follows_skip_scalar _ _ t)).of_map _
  | enum k =>
    have hskip : (skip groupBudget ⟨tag, .varint⟩).Follows int32 fun _ _ => True :=
      ((follows_refl varint).of_map _).map_left _
    exact (follows_skip_values (selfDelimiting_varint.map _) _ _ _ hskip).of_map _
  | message t =>
    have hskip : (skip groupBudget ⟨tag, .delimited⟩).Follows delimited fun _ _ => True :=
      (follows_refl delimited).map_left _
    exact (follows_ofType (fun type => skip groupBudget ⟨tag, type⟩) type hskip).of_check

/-! ## Records of fields that are kept -/

/-- Nested messages are read without the deleted fields. -/
def BodyTrims (p q : Pool) (keeps : String → Nat → Bool)
    (body body' : Nat → Bytes → Except WireFault Content) : Prop :=
  ∀ t u, p.Namesakes q t u → ∀ bs c, body t bs = .ok c →
    body' u bs = .ok (Content.trim p keeps t c)

theorem follows_elements (hbody : BodyTrims p q keeps body body') {f f' : FieldDef}
    (hrep : f'.isRepeated = f.isRepeated) (hkind : f.kind.Namesakes p q f'.kind)
    (type : WireType) : (elements q f' type body').Follows (elements p f type body)
      fun es es' => es' = es.map (Element.trim p keeps f.kind) := by
  unfold elements
  rw [hrep]
  generalize f.kind = kind at hkind
  generalize f'.kind = kind' at hkind
  cases hkind with
  | scalar t =>
    refine (follows_refl _).map ?_
    rintro vs vs' rfl
    rw [List.map_map]
    exact List.map_congr_left fun v _ => by rw [Function.comp_apply, Element.trim]
  | @enum k l values =>
    refine (follows_refl _).map ?_
    rintro ns ns' rfl
    rw [List.map_filterMap, EnumDef.numbered?_congr values]
    refine List.filterMap_congr fun n _ => ?_
    rw [Option.map_map]
    refine Option.map_congr fun i _ => ?_
    rw [Function.comp_apply, Element.trim]
  | @message t u same =>
    refine (follows_refl _).check ?_
    rintro bs bs' es rfl hes
    obtain ⟨c, hc, rfl⟩ := Traverse.map_eq_ok.1 hes
    refine ⟨_, by rw [hbody t u same bs' c hc]; rfl, ?_⟩
    rw [List.map_singleton, Element.trim]

/-! ## Messages -/

/-- **A record is read to the same end, and gives what is left of it.** -/
theorem follows_record (hn : p.Narrowing q keeps) (hs : p.Namesakes q t u)
    (hbody : BodyTrims p q keeps body body') :
    (record q u body').Follows (record p t body) fun c c' => c' = Content.trim p keeps t c := by
  refine follows_bind fun k => ?_
  cases hn t u hs k.tag with
  | absent old new =>
    rw [old, new]
    refine (follows_refl _).map fun _ _ _ => ?_
    rw [Content.trim]
  | deleted old drops new =>
    rw [old, new]
    refine (follows_skip_elements _ k).map fun es _ _ => ?_
    rw [Content.trim_map_deleted (MessageDef.number_of_field? old ▸ drops)]
  | @kept f f' old hk new repeated kind =>
    rw [old, new]
    have hnumber : f'.number = f.number :=
      (MessageDef.number_of_field? new).trans (MessageDef.number_of_field? old).symm
    refine (follows_elements hbody repeated kind k.type).map ?_
    rintro es es' rfl
    rw [← MessageDef.number_of_field? old] at hk
    rw [hnumber, Content.trim_map_kept (MessageDef.number_of_field? old ▸ old) hk]

/-- **A content is read without the deleted fields.** -/
theorem content_trim (hn : p.Narrowing q keeps) (budget : Nat) :
    BodyTrims p q keeps (content p budget) (content q budget) := by
  induction budget with
  | zero =>
    intro t u _ bs c hc
    simp [content] at hc
  | succ budget ih =>
    intro t u hs bs c hc
    rw [content_eq] at hc ⊢
    obtain ⟨parts, hparts, rfl⟩ := Traverse.map_eq_ok.1 hc
    obtain ⟨parts', hparts', hall⟩ := all_of_follows (follows_record hn hs ih) hparts
    have hmap : parts' = parts.map (Content.trim p keeps t) := by
      rw [← List.forall₂_eq_eq_eq, List.forall₂_map_right_iff]
      exact hall.flip
    have hmerge := Content.trim_merge hn hs Content.typed_nil (belongs_of_all hparts)
    rw [Content.trim, Content.trim_flatten] at hmerge
    rw [hparts', hmap, hmerge]
    rfl

end Decode

/-- **Forward compatibility.** Where fields have been deleted from a schema, whatever could be
decoded as a message of the schema can be decoded as the message of the same name, and gives what is
left of it: the other fields have the values that they had, without the deleted fields in them. A
record of a deleted field is read past to the very place where reading it ends. -/
theorem Message.decode_trim {s s' : Schema} {keeps : String → Nat → Bool} (hs : s.pool.Reachable)
    (hs' : s'.pool.Reachable) (hn : s'.pool.Narrows s.pool keeps) {t t' : MessageType}
    (ht : t ∈ s.messages) (ht' : t' ∈ s'.messages) (hname : t'.fullName = t.fullName) {bs : Bytes}
    {m : Message} (hm : decode t bs = .ok m) :
    decode t' bs = .ok ⟨t', Content.trim s.pool keeps t.index m.content⟩ ∧
      (∀ n f, (s.pool.message t.index).field? n = some f →
        Content.values n (Content.trim s.pool keeps t.index m.content) =
          if keeps t.fullName n then
            (Content.values n m.content).map (Element.trim s.pool keeps f.kind)
          else []) ∧
      ∀ f k body bs es rest, (Decode.elements s.pool f k.type body).read bs = .ok (es, rest) →
        (Reader.skip Decode.groupBudget k).read bs = .ok ((), rest) := by
  obtain ⟨i, hi, rfl⟩ := List.mem_map.1 ht
  obtain ⟨j, hj, rfl⟩ := List.mem_map.1 ht'
  have hnarrowing : s.pool.Narrowing s'.pool keeps := fun _ _ =>
    hn.fate hs.consistent hs'.consistent
  have hsame : s.pool.Namesakes s'.pool i j := ⟨List.mem_range.1 hi, List.mem_range.1 hj, hname⟩
  obtain ⟨c, hc, rfl⟩ := Traverse.map_eq_ok.1 hm
  refine ⟨?_, ?_, ?_⟩
  · rw [decode, Decode.content_trim hnarrowing _ i j hsame bs c hc]
    rfl
  · intro n f hf
    split
    · next hk => exact Content.values_trim hf hk
    · next hk => exact Content.values_trim_deleted (Bool.eq_false_iff.2 hk)
  · intro f k body bs es rest hread
    obtain ⟨u, hu, -⟩ := Decode.follows_skip_elements f k bs es rest hread
    exact hu

/-- A link without its marks. -/
def Draft.bareChain : Draft where
  name := "chain.proto"
  package := ""
  messages := [⟨"Link", [⟨.optional, "Link", "next", 1, none⟩], [], []⟩]
  enums := []
  imports := []

/-- Marks are not kept. -/
def Pool.unmarked (_ : String) (number : Nat) : Bool := number ≠ 2

theorem Pool.reachable_unmarked : (Pool.chain.trim Pool.unmarked).Reachable := by
  have hnext : FieldDecl.make .optional "Link" "next" 1 =
      .ok ⟨.optional, "Link", "next", 1, none⟩ := rfl
  have hbuild : Draft.bareChain.build = .ok (Pool.chain.trim Pool.unmarked) := rfl
  refine .build ?_ (fun e he => absurd he List.not_mem_nil)
    (fun q hq => absurd hq List.not_mem_nil) hbuild
  intro m hm
  obtain rfl := List.mem_singleton.1 hm
  exact .addField (.empty "Link") (.make hnext) rfl

/-- A link that holds one with a mark is one that holds an empty one where links have no marks. -/
theorem Message.decode_trim_chain :
    decode ⟨⟨0, Pool.chain⟩, 0⟩ [10, 2, 16, 1] = .ok ⟨⟨⟨0, Pool.chain⟩, 0⟩, Content.marked 1⟩ ∧
      decode ⟨⟨1, Pool.chain.trim Pool.unmarked⟩, 0⟩ [10, 2, 16, 1] =
        .ok ⟨⟨⟨1, Pool.chain.trim Pool.unmarked⟩, 0⟩, [(1, .message [])]⟩ := by
  have hmarked := decode_marked (n := 1) (by decide)
  have hlink : (⟨⟨0, Pool.chain⟩, 0⟩ : MessageType) ∈ Schema.messages ⟨0, Pool.chain⟩ :=
    List.mem_singleton.2 rfl
  have hbare : (⟨⟨1, Pool.chain.trim Pool.unmarked⟩, 0⟩ : MessageType) ∈
      Schema.messages ⟨1, Pool.chain.trim Pool.unmarked⟩ := List.mem_singleton.2 rfl
  have htrim := decode_trim Pool.reachable_chain Pool.reachable_unmarked
    (Pool.narrows_trim Pool.chain Pool.unmarked) hlink hbare rfl hmarked
  exact ⟨hmarked, htrim.1⟩

end ProtoSchema
