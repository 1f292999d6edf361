import Handset.Proofs.Dex.Blocks
import Handset.Proofs.Dex.Outlines

/-!
# Bytes behind the end of an image

Words and numbers of variable length are read from inside the data or not at all, so a reading that goes
through does not notice bytes that are added at the end. The one exception are texts: the bytes of a text
are clipped to the data, and a text that claims more bytes than there are grows into the added ones.
-/
namespace Handset.Dex

variable {d s : Bytes} {f : String → String} {image image' : Image}

/-! ### Words, numbers and texts -/

theorem slice_append (start stop : Nat) (hle : start ≤ stop) (h : stop ≤ d.size) :
    Bytes.slice (d ++ s) start stop = Bytes.slice d start stop := by
  have hsize : (d ++ s).size = d.size + s.size := Array.size_append
  have hempty : s.extract (start - d.size) (stop - d.size) = #[] := by
    apply Array.extract_empty_of_stop_le_start
    omega
  rw [Bytes.slice, Bytes.slice, Bytes.bound_of_le (by omega), Bytes.bound_of_le (by omega),
    Bytes.bound_of_le (by omega), Bytes.bound_of_le h, Array.extract_append, hempty, Array.append_empty]

theorem size_slice_le (d : Bytes) (start stop : Nat) :
    (Bytes.slice d start stop).size ≤ d.size - min start d.size := by
  have hstart : Bytes.bound d.size start = min start d.size := by
    rw [Bytes.bound, if_neg (by omega), Int.toNat_natCast]
  rw [Bytes.slice, hstart, Array.size_extract]
  omega

theorem le_of_word {width offset n : Nat} (hwidth : 0 < width) (h : word d width offset = .ok n) :
    offset + width ≤ d.size := by
  simp only [word, ← Int.natCast_add] at h
  split at h
  next hsize =>
    have hle := size_slice_le d offset (offset + width)
    omega
  next => cases h

theorem persists_word {width : Nat} (hwidth : 0 < width) (offset : Nat) :
    Persists id (word d width offset) (word (d ++ s) width offset) := by
  intro n hn
  have hle := le_of_word hwidth hn
  refine ⟨n, ?_, rfl⟩
  simp only [word, ← Int.natCast_add] at hn ⊢
  rwa [slice_append _ _ (Nat.le_add_right _ _) hle]

theorem readLast_append {left : Nat} {r : Nat × Nat} (hle : left ≤ d.size)
    (h : Leb128.readLast d left = some r) : Leb128.readLast (d ++ s) (left + s.size) = some r := by
  induction left generalizing r with
  | zero => cases h
  | succ left ih =>
    have hlt : d.size - (left + 1) < d.size := by omega
    have hbyte : d[d.size - (left + 1)]? = some d[d.size - (left + 1)] := Array.getElem?_eq_getElem hlt
    have hbyte' : (d ++ s)[d.size - (left + 1)]? = some d[d.size - (left + 1)] := by
      rw [Array.getElem?_append_left hlt, hbyte]
    have hsucc : left + 1 + s.size = left + s.size + 1 := by omega
    rw [Leb128.readLast_succ hbyte (by omega)] at h
    rw [hsucc, Leb128.readLast_succ hbyte' (by rw [Array.size_append]; omega)]
    split at h
    next hlast => rw [if_pos hlast, h]
    next hmore =>
      obtain ⟨rest, hrest, hr⟩ := Option.map_eq_some_iff.mp h
      rw [if_neg hmore, ih (by omega) hrest, Option.map_some, hr]

theorem persists_leb128 (offset : Nat) :
    Persists id (Leb128.read d offset) (Leb128.read (d ++ s) offset) := by
  intro r hr
  refine ⟨r, ?_, rfl⟩
  unfold Leb128.read at hr ⊢
  split at hr
  next found hfound =>
    obtain rfl := Except.ok.inj hr
    have hinside : offset ≤ d.size := by
      refine Nat.le_of_not_lt fun hlt => ?_
      have hzero : ((d.size : Int) - offset).toNat = 0 := by omega
      rw [hzero] at hfound
      cases hfound
    have hleft : (((d ++ s).size : Int) - offset).toNat = ((d.size : Int) - offset).toNat + s.size := by
      rw [Array.size_append]
      omega
    rw [hleft, readLast_append (by omega) hfound]
  next => cases hr

theorem persists_readString {offset : Nat}
    (h : ∀ length size, Leb128.read d offset = .ok (length, size) →
      f (Text.Utf8.decode (Bytes.slice (d ++ s) (offset + size) (offset + size + length))) =
        f (Text.Utf8.decode (Bytes.slice d (offset + size) (offset + size + length)))) :
    Persists f (readString d offset) (readString (d ++ s) offset) := by
  intro text htext
  cases hread : Leb128.read d offset with
  | error e =>
    rw [readString, hread] at htext
    cases htext
  | ok r =>
    rw [readString, hread] at htext
    obtain rfl := Except.ok.inj htext
    refine ⟨_, ?_, h r.1 r.2 hread⟩
    rw [readString, (persists_leb128 offset).eq_ok hread]
    rfl

/-- No text of the string table claims bytes behind the end of the data. -/
def StringsInside (d : Bytes) : Prop :=
  ∀ i < (readHeader d).1.word .stringIdsSize,
    ∀ offset ∈ (word d 4 ((readHeader d).1.word .stringIdsOffset + 4 * i : Nat)).toOption,
      ∀ r ∈ (Leb128.read d offset).toOption, offset + r.2 + r.1 ≤ d.size

instance (d : Bytes) : Decidable (StringsInside d) := by
  unfold StringsInside
  infer_instance

theorem persists_readStringId_of_inside {start : Nat}
    (h : ∀ offset ∈ (word d 4 start).toOption, ∀ r ∈ (Leb128.read d offset).toOption,
      offset + r.2 + r.1 ≤ d.size) :
    Persists id (readStringId d start) (readStringId (d ++ s) start) := by
  intro text htext
  cases hword : word d 4 start with
  | error e =>
    rw [readStringId, hword] at htext
    cases htext
  | ok offset =>
    rw [readStringId, hword] at htext
    rw [readStringId, (persists_word (by decide) start).eq_ok hword]
    refine persists_readString (fun length size hread => ?_) text htext
    have hle : offset + size + length ≤ d.size := by
      rw [hword] at h
      exact h offset rfl (length, size) (by rw [hread]; rfl)
    rw [← Int.natCast_add, ← Int.natCast_add, slice_append _ _ (Nat.le_add_right _ _) hle]

theorem persists_readStringId_outline (start : Nat) :
    Persists (fun _ => "") (readStringId d start) (readStringId (d ++ s) start) :=
  (persists_word (by decide) start).bindExact fun _ => persists_readString fun _ _ _ => rfl

/-! ### The tables -/

theorem completes_readWords (places : List (HeaderWord × Nat)) (h : Header) :
    Completes (fun a b => b = a) (readWords d places h) (readWords (d ++ s) places h) := by
  induction places generalizing h with
  | nil => exact fun _ => ⟨rfl, rfl⟩
  | cons first rest ih =>
    obtain ⟨w, place⟩ := first
    unfold readWords
    cases hword : word d 4 place with
    | error e => exact nofun
    | ok n =>
      rw [(persists_word (by decide) place).eq_ok hword]
      exact ih _

theorem persists_readMagic : Persists id (readMagic d) (readMagic (d ++ s)) := by
  intro magic hmagic
  refine ⟨magic, ?_, rfl⟩
  have hlength : (Bytes.slice d 0 8).size = 8 := by
    unfold readMagic at hmagic
    dsimp only at hmagic
    split at hmagic
    · cases hmagic
    · split at hmagic
      next h => simpa using h.2
      next => cases hmagic
  have hle := size_slice_le d 0 8
  have hslice : Bytes.slice (d ++ s) 0 8 = Bytes.slice d 0 8 :=
    slice_append 0 8 (by omega) (by
      change (Bytes.slice d 0 8).size ≤ _ at hle
      omega)
  rw [readMagic, hslice]
  exact hmagic

theorem exists_word_of_readWords {places : List (HeaderWord × Nat)} {h : Header}
    (hnone : (readWords d places h).2 = none) : ∀ p ∈ places, ∃ n, word d 4 p.2 = .ok n := by
  induction places generalizing h with
  | nil => exact nofun
  | cons first rest ih =>
    obtain ⟨w, place⟩ := first
    unfold readWords at hnone
    cases hword : word d 4 place with
    | error e =>
      rw [hword] at hnone
      cases hnone
    | ok n =>
      rw [hword] at hnone
      intro p hp
      rcases List.mem_cons.mp hp with rfl | hp
      · exact ⟨n, hword⟩
      · exact ih hnone p hp

theorem completes_readHeader :
    Completes (fun a b => b = a) (readHeader d) (readHeader (d ++ s)) := by
  unfold readHeader
  cases hmagic : readMagic d with
  | error e => exact nofun
  | ok magic =>
    rw [persists_readMagic.eq_ok hmagic]
    dsimp only
    have hchecksum := completes_readWords (d := d) (s := s) [(.checksum, 8)] { magic := some magic }
    rcases hfirst : readWords d [(.checksum, 8)] { magic := some magic } with ⟨header, fault⟩
    rcases hfirst' : readWords (d ++ s) [(.checksum, 8)] { magic := some magic } with ⟨header', fault'⟩
    rw [hfirst, hfirst'] at hchecksum
    cases fault with
    | some e => exact nofun
    | none =>
      obtain ⟨hnone, hsame⟩ := hchecksum rfl
      obtain rfl : fault' = none := hnone
      obtain rfl : header' = header := hsame
      intro hrest
      -- the signature stands before the first of the words that were read after it
      obtain ⟨n, hword⟩ := exists_word_of_readWords hrest (.fileSize, 32) List.mem_cons_self
      have hle := le_of_word (by decide) hword
      have hsignature : Bytes.slice (d ++ s) 12 32 = Bytes.slice d 12 32 :=
        slice_append 12 32 (by omega) (by omega)
      dsimp only at hrest ⊢
      rw [hsignature]
      exact completes_readWords _ _ hrest

theorem completes_readStrings (h : image.Alike f image')
    (hnames : ∀ i < image.header.word .stringIdsSize,
      Persists f (readStringId d (image.header.word .stringIdsOffset + 4 * i))
        (readStringId (d ++ s) (image.header.word .stringIdsOffset + 4 * i))) :
    Completes (Image.Alike f) (readStrings d image) (readStrings (d ++ s) image') := by
  have hread := completes_collect _ hnames
  simp only [readStrings, h.header]
  exact fun hnone => ⟨(hread hnone).1, { h with header := rfl, strings := (hread hnone).2 }⟩

theorem completes_readTypes (h : image.Alike f image') :
    Completes (Image.Alike f) (readTypes d image) (readTypes (d ++ s) image') := by
  have hentry (start : Nat) :
      Persists f (readTypeId d image start) (readTypeId (d ++ s) image' start) :=
    (persists_word (by decide) _).bindExact fun _ => persists_entry h.strings _
  have hread := completes_collect (image.header.word .typeIdsSize) fun i _ =>
    hentry (image.header.word .typeIdsOffset + 4 * i)
  simp only [readTypes, h.header]
  exact fun hnone => ⟨(hread hnone).1, { h with header := rfl, types := (hread hnone).2 }⟩

theorem persists_readTypeList {types types' : Array String} (h : types'.map f = types.map f) (offset : Nat) :
    Persists (Array.map f) (readTypeList d types offset) (readTypeList (d ++ s) types' offset) := by
  unfold readTypeList
  split
  · exact .pure rfl
  · refine (persists_word (by decide) _).bindExact fun count => persists_readAll count fun j => ?_
    exact (persists_word (by decide) _).bindExact fun _ => persists_entry h _

theorem persists_readProto (h : image.Alike f image') (start : Nat) :
    Persists (Proto.mapNames f) (readProto d image start) (readProto (d ++ s) image' start) := by
  refine (persists_word (by decide) _).bindExact fun _ => (persists_word (by decide) _).bindExact fun _ =>
    (persists_word (by decide) _).bindExact fun _ => ?_
  refine (persists_readTypeList h.types _).bind fun ps ps' hparameters => ?_
  refine (persists_entry h.strings _).bind fun x x' hshorty => ?_
  refine (persists_entry h.types _).bind fun r r' hreturn => .pure ?_
  simp only [Proto.mapNames, hparameters, hshorty, hreturn]

theorem completes_readProtos (h : image.Alike f image') :
    Completes (Image.Alike f) (readProtos d image) (readProtos (d ++ s) image') := by
  have hread := completes_collect (image.header.word .protoIdsSize) fun i _ =>
    persists_readProto (d := d) (s := s) h (image.header.word .protoIdsOffset + 12 * i)
  simp only [readProtos, h.header]
  exact fun hnone => ⟨(hread hnone).1, { h with header := rfl, protos := (hread hnone).2 }⟩

theorem persists_readField (h : image.Alike f image') (start : Nat) :
    Persists (Field.mapNames f) (readField d image start) (readField (d ++ s) image' start) := by
  refine (persists_word (by decide) _).bindExact fun _ => (persists_word (by decide) _).bindExact fun _ =>
    (persists_word (by decide) _).bindExact fun _ => ?_
  refine (persists_entry h.types _).bind fun c c' hclass => ?_
  refine (persists_entry h.types _).bind fun t t' htype => ?_
  refine (persists_entry h.strings _).bind fun n n' hname => .pure ?_
  simp only [Field.mapNames, hclass, htype, hname]

theorem completes_readFields (h : image.Alike f image') :
    Completes (Image.Alike f) (readFields d image) (readFields (d ++ s) image') := by
  have hread := completes_collect (image.header.word .fieldIdsSize) fun i _ =>
    persists_readField (d := d) (s := s) h (image.header.word .fieldIdsOffset + 8 * i)
  simp only [readFields, h.header]
  exact fun hnone => ⟨(hread hnone).1, { h with header := rfl, fields := (hread hnone).2 }⟩

theorem persists_readMethod (h : image.Alike f image') (start : Nat) :
    Persists (Method.mapNames f) (readMethod d image start) (readMethod (d ++ s) image' start) := by
  refine (persists_word (by decide) _).bindExact fun _ => (persists_word (by decide) _).bindExact fun _ =>
    (persists_word (by decide) _).bindExact fun _ => ?_
  refine (persists_entry h.types _).bind fun c c' hclass => ?_
  refine (persists_entry h.strings _).bind fun n n' hname => ?_
  refine (persists_entry h.protos _).bind fun p p' hproto => .pure ?_
  simp only [Method.mapNames, hclass, hname, hproto]

theorem completes_readMethods (h : image.Alike f image') :
    Completes (Image.Alike f) (readMethods d image) (readMethods (d ++ s) image') := by
  have hread := completes_collect (image.header.word .methodIdsSize) fun i _ =>
    persists_readMethod (d := d) (s := s) h (image.header.word .methodIdsOffset + 8 * i)
  simp only [readMethods, h.header]
  exact fun hnone => ⟨(hread hnone).1, { h with header := rfl, methods := (hread hnone).2 }⟩

/-! ### The classes -/

/-- The method tables look the same through `f`. -/
def MethodsAlike (f : String → String) (methods methods' : Array Method) : Prop :=
  methods'.map (·.mapNames f) = methods.map (·.mapNames f)

theorem MethodsAlike.size_eq {methods methods' : Array Method} (h : MethodsAlike f methods methods') :
    methods'.size = methods.size := by
  simpa using congrArg Array.size h

theorem MethodsAlike.modify {methods methods' : Array Method} (h : MethodsAlike f methods methods')
    (index codeOffset : Nat) :
    MethodsAlike f (methods.modify index fun m => { m with codeOffset })
      (methods'.modify index fun m => { m with codeOffset }) := by
  apply Array.ext_getElem?
  intro i
  have hlook : (methods'.map (·.mapNames f))[i]? = (methods.map (·.mapNames f))[i]? := by rw [h]
  simp only [Array.getElem?_map, Array.getElem?_modify] at hlook ⊢
  split
  · have hset (m : Option Method) :
        Option.map (·.mapNames f) (Option.map (fun m => { m with codeOffset }) m) =
          Option.map (fun m => { m with codeOffset }) (Option.map (·.mapNames f) m) := by
      cases m <;> rfl
    rw [hset, hset, hlook]
  · exact hlook

def MemberScan.Alike (f : String → String) (scan scan' : MemberScan) : Prop :=
  ∃ methods, scan' = { scan with methods } ∧ MethodsAlike f scan.methods methods

def ClassData.Alike (f : String → String) (data data' : ClassData) : Prop :=
  ∃ methods, data' = { data with methods } ∧ MethodsAlike f data.methods methods

theorem persists_fieldEntry (position : Nat) :
    Persists id
      (do
        let (_, n) ← Leb128.read d position
        let (flags, m) ← Leb128.read d (position + n : Nat)
        pure (flags, position + n + m))
      (do
        let (_, n) ← Leb128.read (d ++ s) position
        let (flags, m) ← Leb128.read (d ++ s) (position + n : Nat)
        pure (flags, position + n + m)) :=
  (persists_leb128 _).bindExact fun _ => (persists_leb128 _).bindExact fun _ => .pure rfl

theorem completes_skipFields (left : Nat) {scan scan' : MemberScan} (h : scan.Alike f scan') :
    Completes (MemberScan.Alike f) (skipFields d left scan) (skipFields (d ++ s) left scan') := by
  induction left generalizing scan scan' with
  | zero => exact fun _ => ⟨rfl, h⟩
  | succ left ih =>
    obtain ⟨methods, rfl, hmethods⟩ := h
    have hentry := persists_fieldEntry (d := d) (s := s) scan.position
    unfold skipFields
    split
    · exact nofun
    next flags position hread =>
      rw [hentry.eq_ok hread]
      exact ih ⟨methods, rfl, hmethods⟩

theorem persists_memberEntry (position : Nat) :
    Persists id
      (do
        let (difference, n) ← Leb128.read d position
        let (flags, m) ← Leb128.read d (position + n : Nat)
        let (codeOffset, k) ← Leb128.read d (position + n + m : Nat)
        pure (difference, flags, codeOffset, position + n + m + k))
      (do
        let (difference, n) ← Leb128.read (d ++ s) position
        let (flags, m) ← Leb128.read (d ++ s) (position + n : Nat)
        let (codeOffset, k) ← Leb128.read (d ++ s) (position + n + m : Nat)
        pure (difference, flags, codeOffset, position + n + m + k)) :=
  (persists_leb128 _).bindExact fun _ => (persists_leb128 _).bindExact fun _ =>
    (persists_leb128 _).bindExact fun _ => .pure rfl

theorem completes_readMembers (left : Nat) {scan scan' : MemberScan} (h : scan.Alike f scan') :
    Completes (MemberScan.Alike f) (readMembers d left scan) (readMembers (d ++ s) left scan') := by
  induction left generalizing scan scan' with
  | zero => exact fun _ => ⟨rfl, h⟩
  | succ left ih =>
    obtain ⟨methods, rfl, hmethods⟩ := h
    have hentry := persists_memberEntry (d := d) (s := s) scan.position
    unfold readMembers
    split
    · exact nofun
    next difference flags codeOffset position hread =>
      rw [hentry.eq_ok hread]
      simp only [hmethods.size_eq]
      split
      · exact ih ⟨_, rfl, hmethods.modify _ codeOffset⟩
      · exact ih ⟨methods, rfl, hmethods⟩

theorem persists_classCounts (offset : Nat) :
    Persists id
      (do
        let (statics, n₁) ← Leb128.read d offset
        let (instances, n₂) ← Leb128.read d (offset + n₁ : Nat)
        let (directs, n₃) ← Leb128.read d (offset + n₁ + n₂ : Nat)
        let (virtuals, n₄) ← Leb128.read d (offset + n₁ + n₂ + n₃ : Nat)
        pure (statics + instances, directs, virtuals, offset + n₁ + n₂ + n₃ + n₄))
      (do
        let (statics, n₁) ← Leb128.read (d ++ s) offset
        let (instances, n₂) ← Leb128.read (d ++ s) (offset + n₁ : Nat)
        let (directs, n₃) ← Leb128.read (d ++ s) (offset + n₁ + n₂ : Nat)
        let (virtuals, n₄) ← Leb128.read (d ++ s) (offset + n₁ + n₂ + n₃ : Nat)
        pure (statics + instances, directs, virtuals, offset + n₁ + n₂ + n₃ + n₄)) :=
  (persists_leb128 _).bindExact fun _ => (persists_leb128 _).bindExact fun _ =>
    (persists_leb128 _).bindExact fun _ => (persists_leb128 _).bindExact fun _ => .pure rfl

theorem exists_of_completes {α : Type} {look : α → α → Prop} {a : α} {q : Partial α}
    (h : Completes look (a, none) q) : ∃ b, q = (b, none) ∧ look a b := by
  obtain ⟨b, fault⟩ := q
  obtain ⟨hnone, hlook⟩ := h rfl
  exact ⟨b, congrArg (Prod.mk b) hnone, hlook⟩

theorem completes_readClassData {methods methods' : Array Method} (h : MethodsAlike f methods methods')
    (flags offset : Nat) :
    Completes (ClassData.Alike f) (readClassData d methods flags offset)
      (readClassData (d ++ s) methods' flags offset) := by
  have hcounts := persists_classCounts (d := d) (s := s) offset
  unfold readClassData
  dsimp only
  split
  · exact fun _ => ⟨rfl, methods', rfl, h⟩
  split
  · exact nofun
  next fields directs virtuals position hread =>
    rw [hcounts.eq_ok hread]
    dsimp only
    let start : MemberScan := { position, index := 0, flags, methods, entries := #[] }
    have hstart : start.Alike f { start with methods := methods' } := ⟨methods', rfl, h⟩
    have hfields := completes_skipFields (d := d) (s := s) fields hstart
    split
    · exact nofun
    next scan hskip =>
      rw [hskip] at hfields
      obtain ⟨scan', hskip', hscan⟩ := exists_of_completes hfields
      rw [hskip']
      have hdirects := completes_readMembers (d := d) (s := s) directs hscan
      dsimp only
      split
      · exact nofun
      next direct hdirect =>
        rw [hdirect] at hdirects
        obtain ⟨direct', hdirect', methods₁, rfl, hmethods₁⟩ := exists_of_completes hdirects
        rw [hdirect']
        -- the virtual methods go on in the same method table
        have hrest : MemberScan.Alike f { direct with entries := #[] }
            { direct with methods := methods₁, entries := #[] } := ⟨methods₁, rfl, hmethods₁⟩
        have hvirtuals := completes_readMembers (d := d) (s := s) virtuals hrest
        dsimp only
        split
        · exact nofun
        next last hlast =>
          rw [hlast] at hvirtuals
          obtain ⟨last', hlast', methods₂, rfl, hmethods₂⟩ := exists_of_completes hvirtuals
          rw [hlast']
          exact fun _ => ⟨rfl, methods₂, rfl, hmethods₂⟩

def ClassRecord.mapNames (f : String → String) (r : ClassRecord) : ClassRecord :=
  { r with
    superclass := f r.superclass
    interfaces := r.interfaces.map f
    sourceFile := r.sourceFile.map f }

theorem persists_readClassRecord (h : image.Alike f image') (start : Nat) :
    Persists (ClassRecord.mapNames f) (readClassRecord d image start)
      (readClassRecord (d ++ s) image' start) := by
  refine (persists_word (by decide) _).bindExact fun _ => (persists_word (by decide) _).bindExact fun _ =>
    (persists_word (by decide) _).bindExact fun superclassIndex =>
    (persists_word (by decide) _).bindExact fun _ =>
    (persists_word (by decide) _).bindExact fun sourceIndex =>
    (persists_word (by decide) _).bindExact fun _ => (persists_word (by decide) _).bindExact fun _ =>
    (persists_word (by decide) _).bindExact fun _ => ?_
  have hsource : Persists (Option.map f) ((entry image.strings sourceIndex).map some)
      ((entry image'.strings sourceIndex).map some) :=
    (persists_entry h.strings _).map fun _ _ hab => congrArg some hab
  refine (persists_readTypeList h.types _).bind fun _ _ hinterfaces => ?_
  refine .chooseBind (.pure rfl) hsource fun _ _ hsourceFile => ?_
  refine .chooseBind (.pure rfl) (persists_entry h.types _) fun _ _ hname => .pure ?_
  simp only [ClassRecord.mapNames, hinterfaces, hsourceFile, hname]

theorem completes_readClass (h : image.Alike f image') (start : Nat) :
    Completes (Image.Alike f) (readClass d image start) (readClass (d ++ s) image' start) := by
  have hrecord := persists_readClassRecord (d := d) (s := s) h start
  unfold readClass
  split
  · exact nofun
  next record hread =>
    obtain ⟨record', hread', hlook⟩ := hrecord record hread
    rw [hread']
    have hindex : record'.classIndex = record.classIndex := congrArg (·.classIndex) hlook
    have hflags : record'.accessFlags = record.accessFlags := congrArg (·.accessFlags) hlook
    have hoffset : record'.dataOffset = record.dataOffset := congrArg (·.dataOffset) hlook
    have hsuperclass : f record'.superclass = f record.superclass := congrArg (·.superclass) hlook
    have hinterfaces : record'.interfaces.map f = record.interfaces.map f := congrArg (·.interfaces) hlook
    have hsource : record'.sourceFile.map f = record.sourceFile.map f := congrArg (·.sourceFile) hlook
    have hdata := completes_readClassData (d := d) (s := s) h.methods record.accessFlags record.dataOffset
    simp only [hindex, hflags, hoffset]
    split
    · exact nofun
    next data heq =>
      rw [heq] at hdata
      obtain ⟨data', heq', methods, rfl, hmethods⟩ := exists_of_completes hdata
      have hentry := persists_entry h.types record.classIndex
      rw [heq']
      dsimp only
      split
      · exact nofun
      next className hname =>
        obtain ⟨className', hname', hclass⟩ := hentry className hname
        rw [hname']
        refine fun _ => ⟨rfl, { h with methods := hmethods, classes := ?_ }⟩
        rw [Array.map_push, Array.map_push, h.classes]
        simp only [ClassDef.mapNames, hclass, hsuperclass, hinterfaces, hsource]

theorem completes_readClassesFrom (left start : Nat) (h : image.Alike f image') :
    Completes (Image.Alike f) (readClassesFrom d left start image)
      (readClassesFrom (d ++ s) left start image') := by
  induction left generalizing image image' start with
  | zero => exact fun _ => ⟨rfl, h⟩
  | succ left ih =>
    have hfirst := completes_readClass (d := d) (s := s) h start
    unfold readClassesFrom
    split
    · exact nofun
    next next heq =>
      rw [heq] at hfirst
      obtain ⟨next', heq', hnext⟩ := exists_of_completes hfirst
      rw [heq']
      exact ih (start + 32) hnext

theorem completes_readClasses (h : image.Alike f image') :
    Completes (Image.Alike f) (readClasses d image) (readClasses (d ++ s) image') := by
  unfold readClasses
  rw [h.header]
  exact completes_readClassesFrom _ _ h

/-! ### The code and the whole image -/

theorem persists_readCodeItem (offset : Nat) :
    Persists id (readCodeItem d offset) (readCodeItem (d ++ s) offset) := by
  have hinstruction (o : Nat) : Persists id (readInstruction d o) (readInstruction (d ++ s) o) :=
    (persists_word (by decide) _).bindExact fun _ => .pure rfl
  have htry (o : Nat) : Persists id (readTryBlock d o) (readTryBlock (d ++ s) o) :=
    (persists_word (by decide) _).bindExact fun _ => (persists_word (by decide) _).bindExact fun _ =>
      (persists_word (by decide) _).bindExact fun _ => .pure rfl
  refine (persists_word (by decide) _).bindExact fun _ => (persists_word (by decide) _).bindExact fun _ =>
    (persists_word (by decide) _).bindExact fun _ => (persists_word (by decide) _).bindExact fun tries =>
    (persists_word (by decide) _).bindExact fun _ => (persists_word (by decide) _).bindExact fun count => ?_
  refine (persists_readAll_exact count fun i => hinstruction _).bindExact fun _ => ?_
  exact (persists_readAll_exact tries fun i => htry _).bindExact fun _ => .pure rfl

theorem completes_readCodeOf (methods methods' : List Method)
    (h : methods'.map (·.codeOffset) = methods.map (·.codeOffset)) (code : Table Nat CodeItem) :
    Completes (fun a b => b = a) (readCodeOf d methods code) (readCodeOf (d ++ s) methods' code) := by
  induction methods generalizing methods' code with
  | nil =>
    obtain rfl : methods' = [] := List.map_eq_nil_iff.mp h
    exact fun _ => ⟨rfl, rfl⟩
  | cons m rest ih =>
    obtain ⟨m', rest', rfl, hm, hrest⟩ := List.map_eq_cons_iff.mp h
    simp only [readCodeOf, hm]
    split
    · exact ih rest' hrest code
    · split
      · exact nofun
      next item hitem =>
        rw [(persists_readCodeItem _).eq_ok hitem]
        exact ih rest' hrest _

theorem completes_readCode (h : image.Alike f image') :
    Completes (Image.Alike f) (readCode d image) (readCode (d ++ s) image') := by
  have hoffsets : image'.methods.toList.map (·.codeOffset) = image.methods.toList.map (·.codeOffset) := by
    have hlist := congrArg Array.toList h.methods
    rw [Array.toList_map, Array.toList_map] at hlist
    have hcode := congrArg (List.map (·.codeOffset)) hlist
    rwa [List.map_map, List.map_map] at hcode
  have hread := completes_readCodeOf (d := d) (s := s) _ _ hoffsets []
  exact fun hnone => ⟨(hread hnone).1, { h with code := (hread hnone).2 }⟩

theorem completes_parse
    (hnames : ∀ i < (readHeader d).1.word .stringIdsSize,
      Persists f (readStringId d ((readHeader d).1.word .stringIdsOffset + 4 * i))
        (readStringId (d ++ s) ((readHeader d).1.word .stringIdsOffset + 4 * i))) :
    Completes (Image.Alike f) (parse d) (parse (d ++ s)) := by
  have hheader := completes_readHeader (d := d) (s := s)
  unfold parse
  rcases hread : readHeader d with ⟨header, fault⟩
  rcases hread' : readHeader (d ++ s) with ⟨header', fault'⟩
  rw [hread] at hnames
  rw [hread, hread'] at hheader
  have hstart : Completes (Image.Alike f) ({ header }, fault) ({ header := header' }, fault') := by
    intro hnone
    obtain ⟨hnone', hsame⟩ := hheader hnone
    exact ⟨hnone', ⟨hsame, rfl, rfl, rfl, rfl, rfl, rfl, rfl⟩⟩
  have hstrings := hstart.andThen fun _ h => completes_readStrings h hnames
  have htypes := hstrings.andThen fun _ h => completes_readTypes (d := d) (s := s) h
  have hprotos := htypes.andThen fun _ h => completes_readProtos (d := d) (s := s) h
  have hfields := hprotos.andThen fun _ h => completes_readFields (d := d) (s := s) h
  have hmethods := hfields.andThen fun _ h => completes_readMethods (d := d) (s := s) h
  have hclasses := hmethods.andThen fun _ h => completes_readClasses (d := d) (s := s) h
  exact hclasses.andThen fun _ h => completes_readCode h

/-- Bytes that are added to an image which can be read do not matter, except to its names: it can still be
read, with the same header, tables of the same lengths and the same numbers, flags, offsets and code. If no
text claims bytes behind the end, the names are the same too, and with them the entry method. -/
theorem parse_append (d s : Bytes) (h : (parse d).2 = none) :
    (parse (d ++ s)).2 = none ∧ (parse (d ++ s)).1.outline = (parse d).1.outline ∧
      (StringsInside d → (parse (d ++ s)).1 = (parse d).1 ∧
        (parse (d ++ s)).1.mainMethod? = (parse d).1.mainMethod?) := by
  have houtline := completes_parse (d := d) (s := s) fun i _ => persists_readStringId_outline _
  obtain ⟨hnone, halike⟩ := houtline h
  refine ⟨hnone, halike.mapNames_eq, fun hinside => ?_⟩
  have hexact := completes_parse (d := d) (s := s) fun i hi =>
    persists_readStringId_of_inside (hinside i hi)
  obtain ⟨-, hsame⟩ := hexact h
  have himage : (parse (d ++ s)).1 = (parse d).1 := by
    rw [← Image.mapNames_id (parse (d ++ s)).1, hsame.mapNames_eq, Image.mapNames_id]
  exact ⟨himage, by rw [himage]⟩

/-- An image with one text at its end, of two letters and a length that it claims for them. -/
def lettered (length : UInt8) : Bytes :=
  #[100, 101, 120, 10, 48, 51, 53, 0] ++ Array.replicate 36 0 ++ #[96, 0, 0, 0] ++ Array.replicate 24 0 ++
    #[1, 0, 0, 0] ++ Array.replicate 20 0 ++ #[100, 0, 0, 0, length, 97, 98]

theorem parse_append_lettered :
    ((parse (lettered 2)).2 = none ∧ StringsInside (lettered 2) ∧
      (parse (lettered 2 ++ #[99])).1 = (parse (lettered 2)).1) ∧
    ((parse (lettered 5)).2 = none ∧ (parse (lettered 5 ++ #[99])).2 = none ∧
      (parse (lettered 5 ++ #[99])).1.outline = (parse (lettered 5)).1.outline ∧
      (parse (lettered 5)).1.strings = #["ab"] ∧ (parse (lettered 5 ++ #[99])).1.strings = #["abc"]) := by
  have hwhole : (parse (lettered 2)).2 = none := by decide +kernel
  have hinside : StringsInside (lettered 2) := by decide +kernel
  have hclipped : (parse (lettered 5)).2 = none := by decide +kernel
  obtain ⟨hread, houtline, -⟩ := parse_append (lettered 5) #[99] hclipped
  have hsame := ((parse_append (lettered 2) #[99] hwhole).2.2 hinside).1
  exact ⟨⟨hwhole, hinside, hsame⟩, hclipped, hread, houtline, by decide +kernel, by decide +kernel⟩

end Handset.Dex
