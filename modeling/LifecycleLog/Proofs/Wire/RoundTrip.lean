-- Messages and their bytes. A decoder takes a message off the front of its
-- bytes, whatever follows, and gives it back; a frame gives back its body.
-- Numbers have to fit their words, and lengths do when the whole does.
import LifecycleLog.Proofs.Text.Utf8
import LifecycleLog.Wire.Frame

namespace LifecycleLog

/-! ## Numbers that fit -/

def ReadMode.InWords : ReadMode → Prop
  | .new => True
  | .pending after => after < UInt64.size

/-- The numbers of a call fit the words they are sent in. -/
def Call.InWords : Call → Prop
  | .stream (.readGroup _ _ _ mode count _) => mode.InWords ∧ count < UInt64.size
  | .stream (.ack _ _ ids) => ∀ id ∈ ids, id < UInt64.size
  | .stream (.claimIdle _ _ _ _ count) => count < UInt64.size
  | _ => True

def Entry.InWords (e : Entry) : Prop := e.id < UInt64.size ∧ e.deliveries < UInt32.size

def PendingEntry.InWords (e : PendingEntry) : Prop :=
  e.id < UInt64.size ∧ e.deliveries < UInt32.size

/-- The numbers of a response fit the words they are sent in. -/
def Wire.Response.InWords : Wire.Response → Prop
  | .count n => n < UInt64.size
  | .id n => n < UInt64.size
  | .entries es => ∀ e ∈ es, e.InWords
  | .pending es => ∀ e ∈ es, e.InWords
  | _ => True

namespace Wire

variable {α β : Type}

/-! ## Reading -/

/-- The decoder takes just these bytes off, and gives this value. -/
def Reads (d : Decoder α) (bytes : List UInt8) (a : α) : Prop :=
  ∀ rest, d (bytes ++ rest) = .ok (a, rest)

namespace Reads

variable {d : Decoder α} {bytes : List UInt8} {a : α}

theorem done (a : α) : Reads (pure a) [] a := fun _ => rfl

theorem bind {f : α → Decoder β} {more : List UInt8} {b : β} (h : Reads d bytes a)
    (hf : Reads (f a) more b) : Reads (d >>= f) (bytes ++ more) b := by
  intro rest
  have hd := h (more ++ rest)
  rw [List.append_assoc]
  change (d (bytes ++ (more ++ rest))).bind (fun x => f x.1 x.2) = _
  rw [hd]
  exact hf rest

/-- The last value of a message needs no more bytes. -/
theorem last {f : α → Decoder β} {b : β} (h : Reads d bytes a) (hf : f a = pure b) :
    Reads (d >>= f) bytes b := by
  have hb : Reads (f a) [] b := hf ▸ done b
  have := h.bind hb
  rwa [List.append_nil] at this

theorem map (h : Reads d bytes a) (f : α → β) : Reads (d >>= fun a => pure (f a)) bytes (f a) :=
  h.last rfl

end Reads

/-! ## Numbers -/

theorem length_littleEndian (width n : Nat) : (littleEndian width n).length = width := by
  induction width generalizing n with
  | zero => rfl
  | succ width ih => simp [littleEndian, ih]

theorem ofLittleEndian_littleEndian (width : Nat) {n : Nat} (h : n < Nat.pow 256 width) :
    ofLittleEndian (littleEndian width n) = n := by
  induction width generalizing n with
  | zero =>
    have : n = 0 := by simpa using h
    rw [this]
    rfl
  | succ width ih =>
    have hq : n / 256 < Nat.pow 256 width := by
      rw [Nat.div_lt_iff_lt_mul (by decide)]
      exact h
    have hb : (UInt8.ofNat (n % 256)).toNat = n % 256 := by
      rw [UInt8.toNat_ofNat']
      omega
    rw [littleEndian, ofLittleEndian, ih hq, hb, Nat.mod_add_div]

theorem reads_bytes (bytes : List UInt8) : Reads (takeBytes bytes.length) bytes bytes := by
  intro rest
  simp [takeBytes]

theorem reads_number {width n : Nat} (h : n < Nat.pow 256 width) :
    Reads (decodeNumber width) (littleEndian width n) n := by
  have hr := (reads_bytes (littleEndian width n)).map ofLittleEndian
  rwa [length_littleEndian, ofLittleEndian_littleEndian width h] at hr

theorem reads_u32 {n : Nat} (h : n < UInt32.size) : Reads decodeU32 (encodeU32 n) n :=
  reads_number h

theorem reads_u64 {n : Nat} (h : n < UInt64.size) : Reads decodeU64 (encodeU64 n) n :=
  reads_number h

@[simp] theorem length_encodeU32 (n : Nat) : (encodeU32 n).length = 4 := length_littleEndian 4 n

@[simp] theorem length_encodeU64 (n : Nat) : (encodeU64 n).length = 8 := length_littleEndian 8 n

theorem length_encodeU64_pos (n : Nat) : 0 < (encodeU64 n).length := by
  rw [length_encodeU64]
  decide

/-! ## Values -/

/-- A value whose bytes are read back, unless they are too many to count. -/
def RoundTrip (encoder : α → List UInt8) (d : Decoder α) (a : α) : Prop :=
  (encoder a).length < UInt64.size → Reads d (encoder a) a

theorem roundTrip_text (s : String) : RoundTrip encodeText decodeText s := by
  intro h
  have hsize : Utf8.size s < UInt64.size := by
    simp only [encodeText, List.length_append, Utf8.length_encode] at h
    omega
  have hbytes := reads_bytes (Utf8.encode s)
  rw [Utf8.length_encode] at hbytes
  exact (reads_u64 hsize).bind (hbytes.last (by rw [Utf8.decode_encode]))

theorem reads_bool (b : Bool) : Reads decodeBool (encodeBool b) b := by
  cases b
  · exact fun _ => rfl
  · exact fun _ => rfl

theorem roundTrip_option {encoder : α → List UInt8} {d : Decoder α} {o : Option α}
    (h : ∀ a ∈ o, RoundTrip encoder d a) :
    RoundTrip (encodeOption encoder) (decodeOption d) o := by
  intro hl
  cases o with
  | none => exact fun _ => rfl
  | some a =>
    have ha : (encoder a).length < UInt64.size := by
      simp only [encodeOption, List.length_cons] at hl
      omega
    have hone : Reads (decodeNumber 1) [1] 1 := fun _ => rfl
    exact hone.bind ((h a rfl ha).map some)

theorem reads_span (d : Span) : Reads decodeSpan (encodeSpan d) d := by
  have hn : d.subNanos < UInt32.size := Nat.lt_trans d.subNanos_lt (by decide)
  exact (reads_u64 d.seconds_lt).bind ((reads_u32 hn).last (by rw [Span.ofParts?_parts]))

/-! ## Lists and tables -/

/-- Items of some bytes each are no more than their bytes. -/
theorem length_le_flatMap {encoder : α → List UInt8} (hpos : ∀ a, 0 < (encoder a).length)
    (as : List α) : as.length ≤ (as.flatMap encoder).length := by
  induction as with
  | nil => simp
  | cons a rest ih =>
    have := hpos a
    simp only [List.flatMap_cons, List.length_append, List.length_cons]
    omega

theorem reads_many {encoder : α → List UInt8} {d : Decoder α} {as : List α}
    (h : ∀ a ∈ as, Reads d (encoder a) a) :
    Reads (decodeMany d as.length) (as.flatMap encoder) as := by
  induction as with
  | nil => exact .done []
  | cons a rest ih =>
    have hrest := ih (fun b hb => h b (List.mem_cons_of_mem a hb))
    exact (h a List.mem_cons_self).bind (hrest.map (a :: ·))

theorem roundTrip_list {encoder : α → List UInt8} {d : Decoder α} {as : List α}
    (hpos : ∀ a, 0 < (encoder a).length) (h : ∀ a ∈ as, RoundTrip encoder d a) :
    RoundTrip (encodeList encoder) (decodeList d) as := by
  intro hl
  simp only [encodeList, List.length_append] at hl
  have hcount := length_le_flatMap hpos as
  have hmany : Reads (decodeMany d as.length) (as.flatMap encoder) as := by
    refine reads_many (fun a ha => h a ha ?_)
    have : (encoder a).length ≤ (as.flatMap encoder).length :=
      (List.sublist_flatten_of_mem (List.mem_map_of_mem ha)).length_le
    omega
  exact (reads_u64 (by omega)).bind hmany

theorem ofList_rows {κ : Type} [Ordered κ] (t : Table κ α) : Table.ofList t.rows = t := by
  refine Table.ext_get? (fun k => ?_)
  have := Table.get?_foldl_insert t.sorted Table.empty k
  rwa [show Table.empty.get? k = none from Table.get?_empty k, Option.or_none] at this

theorem length_encodeText_pos (s : String) : 0 < (encodeText s).length := by
  rw [encodeText, List.length_append, length_encodeU64]
  omega

theorem roundTrip_row (r : String × String) :
    RoundTrip (fun r : String × String => encodeText r.1 ++ encodeText r.2) (do
      let key ← decodeText
      let value ← decodeText
      pure (key, value)) r := by
  intro hl
  rw [List.length_append] at hl
  exact (roundTrip_text r.1 (by omega)).bind ((roundTrip_text r.2 (by omega)).map _)

theorem roundTrip_fields (fields : Fields) : RoundTrip encodeFields decodeFields fields := by
  intro hl
  have hpos : ∀ r : String × String, 0 < (encodeText r.1 ++ encodeText r.2).length := by
    intro r
    have := length_encodeText_pos r.1
    rw [List.length_append]
    omega
  have hrows := roundTrip_list hpos (fun r (_ : r ∈ fields.rows) => roundTrip_row r) hl
  exact hrows.last (by rw [ofList_rows])

/-! ## Requests -/

theorem reads_mode {mode : ReadMode} (h : mode.InWords) :
    Reads decodeMode (encodeMode mode) mode := by
  cases mode with
  | new => exact (reads_u32 (by decide)).bind (.done _)
  | pending after => exact (reads_u32 (by decide)).bind ((reads_u64 h).map _)

theorem reads_start (start : GroupStart) : Reads decodeStart (encodeStart start) start := by
  cases start with
  | beginning => exact (reads_u32 (by decide)).bind (.done _)
  | latest => exact (reads_u32 (by decide)).bind (.done _)

/-- A request of which all numbers fit their words is read back. -/
theorem roundTrip_request {c : Call} (h : c.InWords) :
    RoundTrip encodeRequest decodeRequest c := by
  intro hl
  have htag {n : Nat} (hn : n < 9) : Reads decodeU32 (encodeU32 n) n :=
    reads_u32 (Nat.lt_trans hn (by decide))
  rcases c with c | c
  · cases c with
    | get key =>
      simp only [encodeRequest, List.length_append] at hl ⊢
      exact (htag (by decide)).bind ((roundTrip_text key (by omega)).map _)
    | set key value =>
      simp only [encodeRequest, List.append_assoc, List.length_append] at hl ⊢
      exact (htag (by decide)).bind ((roundTrip_text key (by omega)).bind
        ((roundTrip_text value (by omega)).map _))
    | delete keys =>
      simp only [encodeRequest, List.length_append] at hl ⊢
      have hkeys := roundTrip_list length_encodeText_pos (fun k (_ : k ∈ keys) => roundTrip_text k)
      exact (htag (by decide)).bind ((hkeys (by omega)).map _)
  · cases c with
    | append stream fields =>
      simp only [encodeRequest, List.append_assoc, List.length_append] at hl ⊢
      exact (htag (by decide)).bind ((roundTrip_text stream (by omega)).bind
        ((roundTrip_fields fields (by omega)).map _))
    | createGroup stream group start =>
      simp only [encodeRequest, List.append_assoc, List.length_append] at hl ⊢
      exact (htag (by decide)).bind ((roundTrip_text stream (by omega)).bind
        ((roundTrip_text group (by omega)).bind ((reads_start start).map _)))
    | readGroup stream group consumer mode count block =>
      simp only [encodeRequest, List.append_assoc, List.length_append] at hl ⊢
      exact (htag (by decide)).bind ((roundTrip_text stream (by omega)).bind
        ((roundTrip_text group (by omega)).bind ((roundTrip_text consumer (by omega)).bind
          ((reads_mode h.1).bind ((reads_u64 h.2).bind ((reads_span block).map _))))))
    | ack stream group ids =>
      simp only [encodeRequest, List.append_assoc, List.length_append] at hl ⊢
      have hids := roundTrip_list length_encodeU64_pos (fun id hid _ => reads_u64 (h id hid))
      exact (htag (by decide)).bind ((roundTrip_text stream (by omega)).bind
        ((roundTrip_text group (by omega)).bind ((hids (by omega)).map _)))
    | claimIdle stream group consumer minIdle count =>
      simp only [encodeRequest, List.append_assoc, List.length_append] at hl ⊢
      exact (htag (by decide)).bind ((roundTrip_text stream (by omega)).bind
        ((roundTrip_text group (by omega)).bind ((roundTrip_text consumer (by omega)).bind
          ((reads_span minIdle).bind ((reads_u64 h).map _)))))
    | pending stream group =>
      simp only [encodeRequest, List.append_assoc, List.length_append] at hl ⊢
      exact (htag (by decide)).bind ((roundTrip_text stream (by omega)).bind
        ((roundTrip_text group (by omega)).map _))

/-! ## Responses -/

theorem length_encodeEntry_pos (e : Entry) : 0 < (encodeEntry e).length := by
  simp only [encodeEntry, List.length_append, length_encodeU64]
  omega

theorem length_encodePendingEntry_pos (e : PendingEntry) : 0 < (encodePendingEntry e).length := by
  simp only [encodePendingEntry, List.length_append, length_encodeU64]
  omega

theorem roundTrip_entry {e : Entry} (h : e.InWords) : RoundTrip encodeEntry decodeEntry e := by
  intro hl
  simp only [encodeEntry, List.append_assoc, List.length_append] at hl ⊢
  exact (reads_u64 h.1).bind ((roundTrip_fields e.fields (by omega)).bind
    ((reads_u32 h.2).map _))

theorem roundTrip_pendingEntry {e : PendingEntry} (h : e.InWords) :
    RoundTrip encodePendingEntry decodePendingEntry e := by
  intro hl
  simp only [encodePendingEntry, List.append_assoc, List.length_append] at hl ⊢
  exact (reads_u64 h.1).bind ((roundTrip_text e.consumer (by omega)).bind
    ((reads_u32 h.2).bind ((reads_span e.idle).map _)))

theorem roundTrip_failure (failure : Failure) :
    RoundTrip encodeFailure decodeFailure failure := by
  intro hl
  cases failure with
  | noSuchGroup stream group =>
    simp only [encodeFailure, List.append_assoc, List.length_append] at hl ⊢
    exact (reads_u32 (by decide)).bind ((roundTrip_text stream (by omega)).bind
      ((roundTrip_text group (by omega)).map _))
  | unavailable detail =>
    simp only [encodeFailure, List.length_append] at hl ⊢
    exact (reads_u32 (by decide)).bind ((roundTrip_text detail (by omega)).map _)
  | backend detail =>
    simp only [encodeFailure, List.length_append] at hl ⊢
    exact (reads_u32 (by decide)).bind ((roundTrip_text detail (by omega)).map _)

/-- A response of which all numbers fit their words is read back. -/
theorem roundTrip_response {r : Response} (h : r.InWords) :
    RoundTrip encodeResponse decodeResponse r := by
  intro hl
  have htag {n : Nat} (hn : n < 8) : Reads decodeU32 (encodeU32 n) n :=
    reads_u32 (Nat.lt_trans hn (by decide))
  cases r with
  | value value =>
    simp only [encodeResponse, List.length_append] at hl ⊢
    have hvalue := roundTrip_option (fun a (_ : a ∈ value) => roundTrip_text a)
    exact (htag (by decide)).bind ((hvalue (by omega)).map _)
  | done => exact (htag (by decide)).last rfl
  | count n => exact (htag (by decide)).bind ((reads_u64 h).map _)
  | id n => exact (htag (by decide)).bind ((reads_u64 h).map _)
  | created isNew => exact (htag (by decide)).bind ((reads_bool isNew).map _)
  | entries entries =>
    simp only [encodeResponse, List.length_append] at hl ⊢
    have hentries := roundTrip_list length_encodeEntry_pos (fun e he => roundTrip_entry (h e he))
    exact (htag (by decide)).bind ((hentries (by omega)).map _)
  | pending entries =>
    simp only [encodeResponse, List.length_append] at hl ⊢
    have hentries :=
      roundTrip_list length_encodePendingEntry_pos (fun e he => roundTrip_pendingEntry (h e he))
    exact (htag (by decide)).bind ((hentries (by omega)).map _)
  | failure failure =>
    simp only [encodeResponse, List.length_append] at hl ⊢
    exact (htag (by decide)).bind ((roundTrip_failure failure (by omega)).map _)

/-! ## Frames -/

theorem ofLittleEndian_frameHead {size : Nat} (h : size ≤ maxFrame) :
    ofLittleEndian (frameHead size).reverse = size := by
  rw [frameHead, List.reverse_reverse]
  exact ofLittleEndian_littleEndian 4 (Nat.lt_of_le_of_lt h (by decide))

theorem length_frameHead (size : Nat) : (frameHead size).length = 4 := by
  rw [frameHead, List.length_reverse, length_littleEndian]

theorem frame_eq {body : List UInt8} (h : body.length ≤ maxFrame) :
    frame body = .ok (frameHead body.length ++ body) := by
  rw [frame, if_neg (by omega)]

/-- A frame at the front of a stream gives back its body. -/
theorem takeFrame_frame {body : List UInt8} (h : body.length ≤ maxFrame) (rest : List UInt8) :
    takeFrame (frameHead body.length ++ body ++ rest) = (.ok body, rest) := by
  have hhead : (frameHead body.length ++ body ++ rest).take 4 = frameHead body.length := by
    rw [List.append_assoc, List.take_left' (length_frameHead _)]
  have hrest : (frameHead body.length ++ body ++ rest).drop 4 = body ++ rest := by
    rw [List.append_assoc, List.drop_left' (length_frameHead _)]
  simp only [takeFrame, hhead, hrest, length_frameHead, ofLittleEndian_frameHead h,
    List.take_left, List.drop_left]
  rw [if_neg (by omega), if_neg (by omega), if_neg (by omega)]

/-- A body that is just one message. -/
theorem decodeBody_of_reads {d : Decoder α} {body : List UInt8} {a : α} (h : Reads d body a) :
    decodeBody d body = .ok a := by
  have := h []
  rw [List.append_nil] at this
  rw [decodeBody, this]

end Wire

end LifecycleLog
