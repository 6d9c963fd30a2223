-- Events and the records that carry them. A record gives back the event that
-- was written, less its empty details; where an attribute that the tag needs is
-- empty, the first one of these is named instead. What is read off a record is
-- in the record, and nothing is looked at but the attributes of its tag.
import LifecycleLog.Event
import Mathlib.Data.List.Find
import Mathlib.Data.List.Induction

namespace LifecycleLog

/-- Of rows with different keys, a table holds each. -/
theorem Table.get?_ofList {κ α : Type} [Ordered κ] {rows : List (κ × α)}
    (h : (rows.map (·.1)).Nodup) {k : κ} {v : α} :
    (Table.ofList rows).get? k = some v ↔ (k, v) ∈ rows := by
  induction rows using List.reverseRecOn with
  | nil => simp [Table.ofList, Table.empty, Table.get?, Rows.get?]
  | append_singleton rows r ih =>
    obtain ⟨j, w⟩ := r
    rw [List.map_append, List.nodup_append] at h
    obtain ⟨hrows, _, hj⟩ := h
    have hsnoc : Table.ofList (rows ++ [(j, w)]) = (Table.ofList rows).insert j w := by
      simp [Table.ofList]
    rw [hsnoc, Table.get?_insert, List.mem_append, List.mem_singleton, Prod.mk.injEq]
    by_cases hk : k = j
    · subst hk
      have hnot : (k, v) ∉ rows := fun hm => hj k (List.mem_map_of_mem hm) k (by simp) rfl
      simp [hnot, eq_comm]
    · simp [hk, ih hrows]

/-! ## Tags -/

namespace Tag

variable {tag : Tag} {text : String}

theorem mem_all (t : Tag) : t ∈ Tag.all := by
  cases t with
  | create kind => cases kind <;> decide
  | update kind => cases kind <;> decide
  | remove kind => cases kind <;> decide
  | connect => decide
  | disconnect => decide

theorem ofText?_text (t : Tag) : ofText? t.text = some t := by
  cases t with
  | create kind => cases kind <;> decide
  | update kind => cases kind <;> decide
  | remove kind => cases kind <;> decide
  | connect => decide
  | disconnect => decide

theorem ofText?_eq_some_iff : ofText? text = some tag ↔ tag.text = text := by
  constructor
  · intro h
    simpa using List.find?_some h
  · rintro rfl
    exact ofText?_text tag

theorem ofText?_eq_none_iff : ofText? text = none ↔ ∀ tag : Tag, tag.text ≠ text := by
  simp [ofText?, mem_all]

/-- What a record with the tag has to say, in the order in which it is looked for. -/
def required : Tag → List String
  | .create _ => [Attribute.id, Attribute.owner]
  | .update _ => [Attribute.id]
  | .remove _ => [Attribute.id]
  | .connect => [Attribute.channelId, Attribute.thingId]
  | .disconnect => [Attribute.channelId, Attribute.thingId]

/-- What a record with the tag may say besides. -/
def optional : Tag → List String
  | .create _ => [Attribute.name, Attribute.externalId, Attribute.metadata]
  | .update _ => [Attribute.name, Attribute.externalId, Attribute.metadata]
  | _ => []

/-- The attributes that a tag gives a meaning to. -/
def attributes (t : Tag) : List String := Attribute.operation :: (t.required ++ t.optional)

theorem nodup_attributes (t : Tag) : t.attributes.Nodup := by
  cases t with
  | create kind => cases kind <;> decide
  | update kind => cases kind <;> decide
  | remove kind => cases kind <;> decide
  | connect => decide
  | disconnect => decide

end Tag

/-! ## Attributes -/

/-- An empty text counts as none. -/
def Details.tidy (d : Details) : Details :=
  ⟨d.name.filter (fun v => !v.isEmpty), d.externalId.filter (fun v => !v.isEmpty),
    d.metadata.filter (fun v => !v.isEmpty)⟩

namespace Event

/-- What the event says under the attributes that its tag requires. -/
def required : Event → List (String × String)
  | .created _ id owner _ => [(Attribute.id, id), (Attribute.owner, owner)]
  | .updated _ id _ => [(Attribute.id, id)]
  | .removed _ id => [(Attribute.id, id)]
  | .connected channelId thingId =>
    [(Attribute.channelId, channelId), (Attribute.thingId, thingId)]
  | .disconnected channelId thingId =>
    [(Attribute.channelId, channelId), (Attribute.thingId, thingId)]

/-- The first required attribute that is empty. -/
def lacking? (e : Event) : Option String :=
  (e.required.find? (fun r => r.2.isEmpty)).map (·.1)

def details? : Event → Option Details
  | .created _ _ _ details => some details
  | .updated _ _ details => some details
  | _ => none

/-- The event without its empty details. -/
def tidy : Event → Event
  | .created kind id owner details => .created kind id owner details.tidy
  | .updated kind id details => .updated kind id details.tidy
  | e => e

variable {e : Event} {fields fields' : Fields} {key value : String} {tag : Tag}

theorem map_fst_required (e : Event) : e.required.map (·.1) = e.tag.required := by
  cases e <;> rfl

theorem tag_tidy (e : Event) : e.tidy.tag = e.tag := by cases e <;> rfl

theorem required_tidy (e : Event) : e.tidy.required = e.required := by cases e <;> rfl

theorem details?_tidy (e : Event) : e.tidy.details? = e.details?.map Details.tidy := by
  cases e <;> rfl

theorem lacking?_eq_none_iff : e.lacking? = none ↔ ∀ r ∈ e.required, r.2.isEmpty = false := by
  simp [lacking?]

/-! ## What is written -/

theorem mem_attributes : (key, value) ∈ e.attributes ↔
    (key, value) ∈ e.required ∨ ∃ d, e.details? = some d ∧ (key, value) ∈ d.attributes := by
  cases e <;> simp [attributes, required, details?, or_assoc]

theorem mem_detailsAttributes {d : Details} : (key, value) ∈ d.attributes ↔
    key = Attribute.name ∧ d.name = some value ∨
    key = Attribute.externalId ∧ d.externalId = some value ∨
    key = Attribute.metadata ∧ d.metadata = some value := by
  simp [Details.attributes, and_comm, eq_comm]

/-- No attribute is written twice, and none that the tag does not know. -/
theorem keys_sublist (e : Event) :
    (((Attribute.operation, e.tag.text) :: e.attributes).map (·.1)).Sublist e.tag.attributes := by
  have hdetails (d : Details) : (d.attributes.map (·.1)).Sublist
      [Attribute.name, Attribute.externalId, Attribute.metadata] := by
    have hone (k : String) (o : Option String) :
        ((o.toList.map (fun v => (k, v))).map (·.1)).Sublist [k] := by
      cases o <;> simp
    simp only [Details.attributes, List.map_append]
    exact ((hone _ _).append (hone _ _)).append (hone _ _)
  cases e with
  | created kind id owner details => exact (((hdetails details).cons_cons _).cons_cons _).cons_cons _
  | updated kind id details => exact ((hdetails details).cons_cons _).cons_cons _
  | _ => exact .refl _

theorem get?_encode : e.encode.get? key = some value ↔
    key = Attribute.operation ∧ value = e.tag.text ∨ (key, value) ∈ e.attributes := by
  rw [encode, Table.get?_ofList ((e.tag.nodup_attributes).sublist e.keys_sublist), List.mem_cons,
    Prod.mk.injEq]

theorem get?_encode_operation (e : Event) :
    e.encode.get? Attribute.operation = some e.tag.text :=
  get?_encode.2 (Or.inl ⟨rfl, rfl⟩)

/-- A required attribute is read back unless it is empty. -/
theorem optional_encode_required {r : String × String} (hr : r ∈ e.required) :
    Record.optional e.encode r.1 = if r.2.isEmpty then none else some r.2 := by
  have hget : e.encode.get? r.1 = some r.2 := get?_encode.2 (Or.inr (mem_attributes.2 (Or.inl hr)))
  rw [Record.optional, hget, Option.filter_some]
  cases r.2.isEmpty <;> rfl

/-- Of the details just those are written that are there. -/
theorem get?_encode_detail {d : Details} (hd : e.details? = some d) (hkey : key ∈ e.tag.optional) :
    e.encode.get? key = some value ↔ (key, value) ∈ d.attributes := by
  have hnodup := e.tag.nodup_attributes
  rw [Tag.attributes, List.nodup_cons, List.nodup_append] at hnodup
  obtain ⟨hoperation, _, _, hrequired⟩ := hnodup
  have hne : key ≠ Attribute.operation := by
    rintro rfl
    exact hoperation (List.mem_append_right _ hkey)
  have hnot : (key, value) ∉ e.required := by
    intro hm
    have hmem : key ∈ e.required.map (·.1) := List.mem_map_of_mem hm
    rw [map_fst_required] at hmem
    exact hrequired key hmem key hkey rfl
  simp [get?_encode, mem_attributes, hne, hnot, hd]

/-- Details are read back but for those that are empty. -/
theorem details_encode {d : Details} (hd : e.details? = some d) :
    Record.details e.encode = d.tidy := by
  have hoptional : e.tag.optional = [Attribute.name, Attribute.externalId, Attribute.metadata] := by
    cases e with
    | created kind id owner details => rfl
    | updated kind id details => rfl
    | _ => cases hd
  have hname : e.encode.get? Attribute.name = d.name := Option.ext fun v => by
    rw [get?_encode_detail hd (by simp [hoptional]), mem_detailsAttributes]
    simp [Attribute.name, Attribute.externalId, Attribute.metadata]
  have hexternal : e.encode.get? Attribute.externalId = d.externalId := Option.ext fun v => by
    rw [get?_encode_detail hd (by simp [hoptional]), mem_detailsAttributes]
    simp [Attribute.name, Attribute.externalId, Attribute.metadata]
  have hmetadata : e.encode.get? Attribute.metadata = d.metadata := Option.ext fun v => by
    rw [get?_encode_detail hd (by simp [hoptional]), mem_detailsAttributes]
    simp [Attribute.name, Attribute.externalId, Attribute.metadata]
  simp only [Record.details, Record.optional, hname, hexternal, hmetadata, Details.tidy]

/-! ## What is read -/

/-- The record says what the event says. -/
structure ReadFrom (fields : Fields) (e : Event) : Prop where
  required : ∀ r ∈ e.required, Record.optional fields r.1 = some r.2
  details : ∀ d, e.details? = some d → d = Record.details fields

/-- A required attribute is found, or named as missing. -/
theorem required_bind {next : String → Except DecodeError Event} :
    (Record.required fields tag key >>= next) = match Record.optional fields key with
      | some value => next value
      | none => .error (.missingAttribute tag key) := by
  unfold Record.required
  cases Record.optional fields key <;> rfl

theorem required_bind_eq_ok_iff {next : String → Except DecodeError Event} :
    (Record.required fields tag key >>= next) = .ok e ↔
      ∃ value, Record.optional fields key = some value ∧ next value = .ok e := by
  rw [required_bind]
  cases Record.optional fields key <;> simp

/-- What is read is what the record says, and whatever a record says is read. -/
theorem event_eq_ok_iff : Record.event fields tag = .ok e ↔ e.tag = tag ∧ ReadFrom fields e := by
  constructor
  · intro h
    cases tag with
    | create kind =>
      simp only [Record.event, required_bind_eq_ok_iff] at h
      obtain ⟨id, hid, owner, howner, h⟩ := h
      cases h
      exact ⟨rfl, by simp [required, hid, howner], by simp [details?]⟩
    | update kind =>
      simp only [Record.event, required_bind_eq_ok_iff] at h
      obtain ⟨id, hid, h⟩ := h
      cases h
      exact ⟨rfl, by simp [required, hid], by simp [details?]⟩
    | remove kind =>
      simp only [Record.event, required_bind_eq_ok_iff] at h
      obtain ⟨id, hid, h⟩ := h
      cases h
      exact ⟨rfl, by simp [required, hid], by simp [details?]⟩
    | connect =>
      simp only [Record.event, required_bind_eq_ok_iff] at h
      obtain ⟨channelId, hchannel, thingId, hthing, h⟩ := h
      cases h
      exact ⟨rfl, by simp [required, hchannel, hthing], by simp [details?]⟩
    | disconnect =>
      simp only [Record.event, required_bind_eq_ok_iff] at h
      obtain ⟨channelId, hchannel, thingId, hthing, h⟩ := h
      cases h
      exact ⟨rfl, by simp [required, hchannel, hthing], by simp [details?]⟩
  · rintro ⟨rfl, hrequired, hdetails⟩
    cases e with
    | created kind id owner details =>
      simp only [required, List.forall_mem_cons] at hrequired
      simp only [tag, Record.event, required_bind, hrequired.1, hrequired.2.1, ← hdetails details rfl]
      rfl
    | updated kind id details =>
      simp only [required, List.forall_mem_cons] at hrequired
      simp only [tag, Record.event, required_bind, hrequired.1, ← hdetails details rfl]
      rfl
    | removed kind id =>
      simp only [required, List.forall_mem_cons] at hrequired
      simp only [tag, Record.event, required_bind, hrequired.1]
      rfl
    | connected channelId thingId =>
      simp only [required, List.forall_mem_cons] at hrequired
      simp only [tag, Record.event, required_bind, hrequired.1, hrequired.2.1]
      rfl
    | disconnected channelId thingId =>
      simp only [required, List.forall_mem_cons] at hrequired
      simp only [tag, Record.event, required_bind, hrequired.1, hrequired.2.1]
      rfl

/-- Of the attributes still to come, the first one that is missing is named. -/
theorem required_bind_of_missing {rest : List String} {next : String → Except DecodeError Event}
    (h : (key :: rest).find? (fun k => (Record.optional fields k).isNone) = some value)
    (hnext : rest.find? (fun k => (Record.optional fields k).isNone) = some value →
      ∀ v, next v = .error (.missingAttribute tag value)) :
    (Record.required fields tag key >>= next) = .error (.missingAttribute tag value) := by
  rw [required_bind]
  rw [List.find?_cons] at h
  cases hkey : Record.optional fields key with
  | none =>
    rw [hkey] at h
    cases h
    rfl
  | some v =>
    rw [hkey] at h
    exact hnext h v

theorem event_of_missing
    (h : tag.required.find? (fun k => (Record.optional fields k).isNone) = some key) :
    Record.event fields tag = .error (.missingAttribute tag key) := by
  cases tag with
  | create kind =>
    exact required_bind_of_missing h fun h _ => required_bind_of_missing h fun h => nomatch h
  | update kind => exact required_bind_of_missing h fun h => nomatch h
  | remove kind => exact required_bind_of_missing h fun h => nomatch h
  | connect =>
    exact required_bind_of_missing h fun h _ => required_bind_of_missing h fun h => nomatch h
  | disconnect =>
    exact required_bind_of_missing h fun h _ => required_bind_of_missing h fun h => nomatch h

/-! ## Records as a whole -/

theorem decode_of_operation (h : fields.get? Attribute.operation = some tag.text) :
    decode fields = (Record.event fields tag).map some := by
  simp only [decode, h, Tag.ofText?_text]

theorem decode_eq_some_iff : decode fields = .ok (some e) ↔
    fields.get? Attribute.operation = some e.tag.text ∧ ReadFrom fields e := by
  constructor
  · intro h
    unfold decode at h
    split at h
    · cases h
    · rename_i operation hoperation
      split at h
      · cases h
      · rename_i tag htag
        have hevent : Record.event fields tag = .ok e := by
          cases hr : Record.event fields tag with
          | error x =>
            rw [hr] at h
            cases h
          | ok e' =>
            rw [hr] at h
            cases h
            rfl
        obtain ⟨rfl, hread⟩ := event_eq_ok_iff.1 hevent
        exact ⟨by rw [hoperation, Tag.ofText?_eq_some_iff.1 htag], hread⟩
  · rintro ⟨hoperation, hread⟩
    rw [decode_of_operation hoperation, event_eq_ok_iff.2 ⟨rfl, hread⟩]
    rfl

theorem decode_eq_none_iff : decode fields = .ok none ↔
    ∃ text, fields.get? Attribute.operation = some text ∧ ∀ tag : Tag, tag.text ≠ text := by
  unfold decode
  cases hoperation : fields.get? Attribute.operation with
  | none => simp
  | some text =>
    simp only [Option.some.injEq, exists_eq_left', ← Tag.ofText?_eq_none_iff]
    cases htag : Tag.ofText? text with
    | none => simp
    | some tag =>
      simp only [reduceCtorEq, iff_false]
      cases Record.event fields tag <;> simp [Except.map]

/-- An event that lacks nothing is read back less its empty details. -/
theorem readFrom_encode (h : e.lacking? = none) : ReadFrom e.encode e.tidy := by
  rw [lacking?_eq_none_iff] at h
  constructor
  · intro r hr
    rw [required_tidy] at hr
    rw [optional_encode_required hr, h r hr]
    rfl
  · intro d hd
    rw [details?_tidy, Option.map_eq_some_iff] at hd
    obtain ⟨d', hd', rfl⟩ := hd
    exact (details_encode hd').symm

theorem decode_encode (e : Event) : decode e.encode = match e.lacking? with
    | none => .ok (some e.tidy)
    | some key => .error (.missingAttribute e.tag key) := by
  cases hlacking : e.lacking? with
  | none =>
    refine decode_eq_some_iff.2 ⟨?_, readFrom_encode hlacking⟩
    rw [get?_encode_operation, tag_tidy]
  | some key =>
    have hmissing : e.tag.required.find? (fun k => (Record.optional e.encode k).isNone)
        = some key := by
      rw [← map_fst_required, List.find?_map, ← hlacking, lacking?]
      congr 1
      refine List.find?_congr fun r hr => ?_
      rw [Function.comp_apply, optional_encode_required hr]
      cases r.2.isEmpty <;> rfl
    rw [decode_of_operation e.get?_encode_operation, event_of_missing hmissing]
    rfl

/-! ## Records that are read -/

theorem eq_of_optional {k v : String} (h : Record.optional fields k = some v) :
    fields.get? k = some v ∧ v.isEmpty = false := by
  simpa [Record.optional] using h

namespace ReadFrom

theorem lacking? (h : ReadFrom fields e) : e.lacking? = none :=
  lacking?_eq_none_iff.2 fun r hr => (eq_of_optional (h.required r hr)).2

/-- Details that were read have nothing empty. -/
theorem tidy (h : ReadFrom fields e) : e.tidy = e := by
  have hdetails : (Record.details fields).tidy = Record.details fields := by
    simp [Record.details, Details.tidy, Record.optional]
  cases e with
  | created kind id owner details => rw [h.details details rfl, Event.tidy, hdetails]
  | updated kind id details => rw [h.details details rfl, Event.tidy, hdetails]
  | _ => rfl

/-- Whatever the event says is in the record it was read from. -/
theorem get?_of_mem (h : ReadFrom fields e) (hmem : (key, value) ∈ e.attributes) :
    fields.get? key = some value := by
  obtain hrequired | ⟨d, hd, hdetail⟩ := mem_attributes.1 hmem
  · exact (eq_of_optional (h.required _ hrequired)).1
  · rw [h.details d hd] at hdetail
    obtain ⟨rfl, hvalue⟩ | ⟨rfl, hvalue⟩ | ⟨rfl, hvalue⟩ := mem_detailsAttributes.1 hdetail <;>
      exact (eq_of_optional hvalue).1

end ReadFrom

/-- Of a record, only what its tag gives a meaning to is looked at. -/
theorem decode_congr (h : decode fields = .ok (some e))
    (hsame : ∀ key ∈ e.tag.attributes, fields'.get? key = fields.get? key) :
    decode fields' = .ok (some e) := by
  obtain ⟨hoperation, hread⟩ := decode_eq_some_iff.1 h
  have hoptional : ∀ key ∈ e.tag.attributes,
      Record.optional fields' key = Record.optional fields key := fun key hkey => by
    rw [Record.optional, hsame key hkey, Record.optional]
  refine decode_eq_some_iff.2 ⟨?_, fun r hr => ?_, fun d hd => ?_⟩
  · rw [hsame _ List.mem_cons_self, hoperation]
  · have hkey : r.1 ∈ e.tag.required := map_fst_required e ▸ List.mem_map_of_mem hr
    rw [hoptional _ (List.mem_cons_of_mem _ (List.mem_append_left _ hkey)), hread.required r hr]
  · have hkeys : ∀ key ∈ [Attribute.name, Attribute.externalId, Attribute.metadata],
        Record.optional fields' key = Record.optional fields key := fun key hkey => by
      refine hoptional key (List.mem_cons_of_mem _ (List.mem_append_right _ ?_))
      cases e with
      | created kind id owner details => exact hkey
      | updated kind id details => exact hkey
      | _ => cases hd
    simp only [List.forall_mem_cons] at hkeys
    rw [hread.details d hd, Record.details, Record.details, hkeys.1, hkeys.2.1, hkeys.2.2.1]

/-- An event is read back from the record it is written to, less its empty
details, unless a required attribute is empty: the first such is named. An event
that is read off a record is in that record and is read back from its own, and
nothing but the attributes of its tag makes a difference. Records of some other
operation are no events. -/
theorem an_event_is_read_back_from_its_record :
    (∀ e : Event, decode e.encode = match e.lacking? with
      | none => .ok (some e.tidy)
      | some key => .error (.missingAttribute e.tag key)) ∧
    (∀ (fields : Fields) (e : Event), decode fields = .ok (some e) →
      (∀ key value, e.encode.get? key = some value → fields.get? key = some value) ∧
      decode e.encode = .ok (some e) ∧
      ∀ fields' : Fields, (∀ key ∈ e.tag.attributes, fields'.get? key = fields.get? key) →
        decode fields' = decode fields) ∧
    ∀ fields : Fields, decode fields = .ok none ↔
      ∃ text, fields.get? Attribute.operation = some text ∧ ∀ tag : Tag, tag.text ≠ text := by
  refine ⟨decode_encode, fun fields e h => ?_, fun _ => decode_eq_none_iff⟩
  obtain ⟨hoperation, hread⟩ := decode_eq_some_iff.1 h
  refine ⟨fun key value hwritten => ?_, ?_, fun fields' hsame => ?_⟩
  · obtain ⟨rfl, rfl⟩ | hmem := get?_encode.1 hwritten
    · exact hoperation
    · exact hread.get?_of_mem hmem
  · rw [decode_encode, hread.lacking?]
    simp only [hread.tidy]
  · rw [decode_congr h hsame, h]

/-- A created thing whose record says more than things do. -/
theorem a_thing_is_read_back_from_its_record :
    let thing : Event := .created .thing "t1" "ann" ⟨some "lamp", none, none⟩
    let fields : Fields := Table.ofList [(Attribute.operation, "thing.create"), (Attribute.id, "t1"),
      (Attribute.owner, "ann"), (Attribute.name, "lamp"), (Attribute.metadata, ""),
      (Attribute.channelId, "c1")]
    decode fields = .ok (some thing) ∧ decode thing.encode = .ok (some thing) ∧
      fields.get? Attribute.owner = some "ann" ∧
      decode (fields.insert Attribute.channelId "") = .ok (some thing) := by
  intro thing fields
  have hread : decode fields = .ok (some thing) := by decide +kernel
  obtain ⟨hkept, hback, hsame⟩ := an_event_is_read_back_from_its_record.2.1 fields thing hread
  have howner : thing.encode.get? Attribute.owner = some "ann" := by decide +kernel
  have hother : ∀ key ∈ thing.tag.attributes,
      (fields.insert Attribute.channelId "").get? key = fields.get? key := by decide +kernel
  exact ⟨hread, hback, hkept _ _ howner, (hsame _ hother).trans hread⟩

end Event

end LifecycleLog
