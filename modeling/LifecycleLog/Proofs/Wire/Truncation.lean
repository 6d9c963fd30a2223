-- Messages that are cut off. More bytes behind those that a decoder is given
-- change nothing but what it leaves, unless it came up short. So of a message
-- that is cut anywhere nothing is read but that it is too short; with all of
-- its bytes it is read back, whatever follows, and so is its frame, if it
-- has one.
import LifecycleLog.Proofs.Wire.RoundTrip

namespace LifecycleLog.Wire

variable {α β : Type}

/-! ## Decoders that are steady -/

/-- What the decoder makes of some bytes is what it makes of more, unless the
bytes were too few for it. -/
structure Steady (d : Decoder α) : Prop where
  ok : ∀ {front : List UInt8} {a : α} {rest : List UInt8}, d front = .ok (a, rest) →
    ∀ more, d (front ++ more) = .ok (a, rest ++ more)
  error : ∀ {front : List UInt8} {cause : Malformed}, d front = .error cause → cause ≠ .short →
    ∀ more, d (front ++ more) = .error cause

namespace Steady

theorem pure (a : α) : Steady (Pure.pure a : Decoder α) where
  ok h more := by cases h; rfl
  error h := by cases h

theorem throw (cause : Malformed) : Steady (MonadExcept.throw cause : Decoder α) where
  ok h := by cases h
  error h _ more := by cases h; rfl

theorem bind_eq (d : Decoder α) (f : α → Decoder β) (bytes : List UInt8) :
    (d >>= f) bytes = (d bytes).bind (fun x => f x.1 x.2) := rfl

theorem bind {d : Decoder α} {f : α → Decoder β} (h : Steady d) (hf : ∀ a, Steady (f a)) :
    Steady (d >>= f) where
  ok := by
    intro front b rest hb more
    rw [bind_eq] at hb ⊢
    cases hd : d front with
    | error cause =>
      rw [hd] at hb
      cases hb
    | ok found =>
      rw [hd] at hb
      rw [h.ok hd more]
      exact (hf found.1).ok hb more
  error := by
    intro front cause hb hne more
    rw [bind_eq] at hb ⊢
    cases hd : d front with
    | error cause' =>
      rw [hd] at hb
      obtain rfl : cause' = cause := Except.error.inj hb
      rw [h.error hd hne more]
      rfl
    | ok found =>
      rw [hd] at hb
      rw [h.ok hd more]
      exact (hf found.1).error hb hne more

theorem map {d : Decoder α} (h : Steady d) (f : α → β) : Steady (d >>= fun a => Pure.pure (f a)) :=
  h.bind fun a => pure (f a)

/-- A steady decoder that reads a message back finds every start of it too short. -/
theorem short {d : Decoder α} (h : Steady d) {bytes front : List UInt8} {a : α}
    (hr : Reads d bytes a) (hfront : front <+: bytes) (hne : front ≠ bytes) :
    d front = .error .short := by
  obtain ⟨more, rfl⟩ := hfront
  have hmore : more ≠ [] := by
    rintro rfl
    exact hne (List.append_nil front).symm
  have hall : d (front ++ more) = .ok (a, []) := by
    have := hr []
    rwa [List.append_nil] at this
  cases hd : d front with
  | ok found =>
    -- then the bytes after the start would be left over
    obtain ⟨b, rest⟩ := found
    rw [h.ok hd more, Except.ok.injEq, Prod.mk.injEq, List.append_eq_nil_iff] at hall
    exact absurd hall.2.2 hmore
  | error cause =>
    by_cases hc : cause = .short
    · rw [hc]
    · rw [h.error hd hc more] at hall
      cases hall

end Steady

/-! ## Values -/

theorem steady_takeBytes (count : Nat) : Steady (takeBytes count) where
  ok := by
    intro front bytes rest h more
    unfold takeBytes at h ⊢
    simp only [List.length_take] at h ⊢
    split at h
    · cases h
    · rename_i hcount
      have hle : count ≤ front.length := by omega
      cases h
      rw [if_neg (by rw [List.length_append]; omega), List.take_append_of_le_length hle,
        List.drop_append_of_le_length hle]
  error := by
    intro front cause h hne
    unfold takeBytes at h
    simp only at h
    split at h
    · cases h
      exact absurd rfl hne
    · cases h

theorem steady_number (width : Nat) : Steady (decodeNumber width) :=
  (steady_takeBytes width).map ofLittleEndian

theorem steady_u32 : Steady decodeU32 := steady_number 4

theorem steady_u64 : Steady decodeU64 := steady_number 8

theorem steady_unknownTag (found count : Nat) : Steady (unknownTag found count : Decoder α) :=
  .throw _

theorem steady_text : Steady decodeText := by
  refine steady_u64.bind fun size => (steady_takeBytes size).bind fun bytes => ?_
  cases Utf8.decode bytes with
  | ok s => exact .pure s
  | error fault => exact .throw _

theorem steady_bool : Steady decodeBool := by
  refine (steady_number 1).bind fun b => ?_
  split
  · exact .pure _
  · exact .pure _
  · exact .throw _

theorem steady_option {d : Decoder α} (h : Steady d) : Steady (decodeOption d) := by
  refine (steady_number 1).bind fun b => ?_
  split
  · exact .pure _
  · exact h.map some
  · exact .throw _

theorem steady_span : Steady decodeSpan := by
  refine steady_u64.bind fun seconds => steady_u32.bind fun nanos => ?_
  cases Span.ofParts? seconds nanos with
  | some d => exact .pure d
  | none => exact .throw _

theorem steady_many {d : Decoder α} (h : Steady d) (count : Nat) : Steady (decodeMany d count) := by
  induction count with
  | zero => exact .pure []
  | succ count ih => exact h.bind fun a => ih.map (a :: ·)

theorem steady_list {d : Decoder α} (h : Steady d) : Steady (decodeList d) :=
  steady_u64.bind fun count => steady_many h count

theorem steady_fields : Steady decodeFields := by
  have hrow : Steady (do
      let key ← decodeText
      let value ← decodeText
      Pure.pure (key, value)) :=
    steady_text.bind fun key => steady_text.map (fun value => (key, value))
  exact (steady_list hrow).map Table.ofList

/-! ## Messages -/

theorem steady_mode : Steady decodeMode := by
  refine steady_u32.bind fun tag => ?_
  split
  · exact .pure _
  · exact steady_u64.map ReadMode.pending
  · exact steady_unknownTag _ _

theorem steady_start : Steady decodeStart := by
  refine steady_u32.bind fun tag => ?_
  split
  · exact .pure _
  · exact .pure _
  · exact steady_unknownTag _ _

theorem steady_request : Steady decodeRequest := by
  refine steady_u32.bind fun tag => ?_
  unfold decodeRequestBody
  split
  · exact steady_text.map _
  · exact steady_text.bind fun _ => steady_text.map _
  · exact (steady_list steady_text).map _
  · exact steady_text.bind fun _ => steady_fields.map _
  · exact steady_text.bind fun _ => steady_text.bind fun _ => steady_start.map _
  · exact steady_text.bind fun _ => steady_text.bind fun _ => steady_text.bind fun _ =>
      steady_mode.bind fun _ => steady_u64.bind fun _ => steady_span.map _
  · exact steady_text.bind fun _ => steady_text.bind fun _ => (steady_list steady_u64).map _
  · exact steady_text.bind fun _ => steady_text.bind fun _ => steady_text.bind fun _ =>
      steady_span.bind fun _ => steady_u64.map _
  · exact steady_text.bind fun _ => steady_text.map _
  · exact steady_unknownTag _ _

theorem steady_entry : Steady decodeEntry :=
  steady_u64.bind fun _ => steady_fields.bind fun _ => steady_u32.map _

theorem steady_pendingEntry : Steady decodePendingEntry :=
  steady_u64.bind fun _ => steady_text.bind fun _ => steady_u32.bind fun _ => steady_span.map _

theorem steady_failure : Steady decodeFailure := by
  refine steady_u32.bind fun tag => ?_
  split
  · exact steady_text.bind fun _ => steady_text.map _
  · exact steady_text.map _
  · exact steady_text.map _
  · exact steady_unknownTag _ _

theorem steady_response : Steady decodeResponse := by
  refine steady_u32.bind fun tag => ?_
  unfold decodeResponseBody
  split
  · exact (steady_option steady_text).map _
  · exact .pure _
  · exact steady_u64.map _
  · exact steady_u64.map _
  · exact steady_bool.map _
  · exact (steady_list steady_entry).map _
  · exact (steady_list steady_pendingEntry).map _
  · exact steady_failure.map _
  · exact steady_unknownTag _ _

/-! ## Messages and their frames -/

/-- The message goes over the wire whole or not at all. Its bytes give it back,
whatever follows; a part of them is too short; and it has a frame, which gives
it back too, unless its bytes are too many, which is then what the error says. -/
structure Carried (encode : α → List UInt8) (d : Decoder α) (a : α) : Prop where
  whole : ∀ rest, d (encode a ++ rest) = .ok (a, rest)
  cut : ∀ front, front <+: encode a → front ≠ encode a →
    decodeBody d front = .error (.malformed .short)
  tooLarge : ∀ size, frame (encode a) = .error (.frameTooLarge size) ↔
    size = (encode a).length ∧ maxFrame < size
  framed : ∀ e, frame (encode a) = .error e → ∃ size, e = .frameTooLarge size
  accepted : ∀ bytes, frame (encode a) = .ok bytes →
    ∀ rest, readFrame d (bytes ++ rest) = (.ok a, rest)

theorem carried_of_reads {encode : α → List UInt8} {d : Decoder α} {a : α} (hs : Steady d)
    (hr : Reads d (encode a) a) : Carried encode d a where
  whole := hr
  cut := by
    intro front hfront hne
    rw [decodeBody, hs.short hr hfront hne]
  tooLarge := by
    intro size
    unfold frame
    by_cases h : maxFrame < (encode a).length
    · rw [if_pos h, Except.error.injEq, StoreError.frameTooLarge.injEq]
      constructor
      · rintro rfl
        exact ⟨rfl, h⟩
      · rintro ⟨rfl, _⟩
        rfl
    · rw [if_neg h]
      constructor
      · intro he
        cases he
      · rintro ⟨rfl, hlt⟩
        exact absurd hlt h
  framed := by
    intro e he
    unfold frame at he
    simp only at he
    split at he
    · exact ⟨_, (Except.error.inj he).symm⟩
    · cases he
  accepted := by
    intro bytes hb rest
    by_cases h : (encode a).length ≤ maxFrame
    · rw [frame_eq h, Except.ok.injEq] at hb
      subst hb
      rw [readFrame, takeFrame_frame h rest]
      simp only [decodeBody_of_reads hr]
    · rw [frame, if_pos (by omega)] at hb
      cases hb

/-- Every message goes over the wire whole or not at all: each request and each
response of which the numbers and the length fit their words. -/
theorem a_message_is_carried_whole_or_not_at_all :
    (∀ c : Call, c.InWords → (encodeRequest c).length < UInt64.size →
      Carried encodeRequest decodeRequest c) ∧
    ∀ r : Response, r.InWords → (encodeResponse r).length < UInt64.size →
      Carried encodeResponse decodeResponse r := by
  constructor
  · intro c hc hl
    exact carried_of_reads steady_request (roundTrip_request hc hl)
  · intro r hr hl
    exact carried_of_reads steady_response (roundTrip_response hr hl)

/-- A read of pending entries, and the response that holds one of them. -/
theorem a_read_and_its_response_are_carried :
    Carried encodeRequest decodeRequest
        (.stream (.readGroup "events" "group" "reader" (.pending 3) 10 (Span.ofMillis 1500))) ∧
      Carried encodeResponse decodeResponse
        (.entries [⟨4, Table.ofList [("id", "t"), ("operation", "thing.remove")], 2⟩]) := by
  constructor
  · apply a_message_is_carried_whole_or_not_at_all.1
    · constructor
      · show 3 < UInt64.size
        decide
      · decide
    · decide +kernel
  · apply a_message_is_carried_whole_or_not_at_all.2
    · simp only [Response.InWords, Entry.InWords, List.mem_singleton, forall_eq]
      decide
    · decide +kernel

end LifecycleLog.Wire
