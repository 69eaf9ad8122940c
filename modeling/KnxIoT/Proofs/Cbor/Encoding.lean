import KnxIoT.Cbor.Reader
import Mathlib.Tactic.Common

/-! # CBOR: encodings

Which bytes stand for which item. `Head.Encoded` gives the bytes of a head: a first byte with the
type and the argument in it or, for the widths 1, 2, 4 and 8, after it. `Item.Encoded` puts heads
and contents together. Arrays, maps and tags have parts that are items again, and an item is encoded
at `levels` if they are nested at most `levels` deep. Neither lengths nor numbers need be in their
shortest form. -/

namespace KnxIoT.Cbor

/-! ### Heads -/

/-- The first byte of a head. -/
def firstByte (major info : ℕ) : UInt8 := UInt8.ofNat (32 * major + info)

/-- The end mark of what has no length. -/
def endMark : UInt8 := 0xFF

/-- The argument that the first byte announces, with the bytes it takes. -/
inductive Argument (info : ℕ) : Option ℕ → Bytes → Prop
  | short (h : info < 24) : Argument info (some info) []
  | long {arg : Bytes} (h : 24 ≤ info) (h' : info < 28) (hlen : arg.length = Nat.pow 2 (info - 24)) :
      Argument info (some (ofBigEndian arg)) arg
  | openLength (h : info = 31) : Argument info none []

/-- **The bytes of a head.** -/
inductive Head.Encoded : Head → Bytes → Prop
  | unsigned {n info : ℕ} {arg : Bytes} (h : Argument info (some n) arg) :
      Encoded (.unsigned n) (firstByte 0 info :: arg)
  | negative {n info : ℕ} {arg : Bytes} (h : Argument info (some n) arg) :
      Encoded (.negative n) (firstByte 1 info :: arg)
  | bytes {len : Option ℕ} {info : ℕ} {arg : Bytes} (h : Argument info len arg) :
      Encoded (.bytes len) (firstByte 2 info :: arg)
  | text {len : Option ℕ} {info : ℕ} {arg : Bytes} (h : Argument info len arg) :
      Encoded (.text len) (firstByte 3 info :: arg)
  | array {len : Option ℕ} {info : ℕ} {arg : Bytes} (h : Argument info len arg) :
      Encoded (.array len) (firstByte 4 info :: arg)
  | map {len : Option ℕ} {info : ℕ} {arg : Bytes} (h : Argument info len arg) :
      Encoded (.map len) (firstByte 5 info :: arg)
  | tag {n info : ℕ} {arg : Bytes} (h : Argument info (some n) arg) :
      Encoded (.tag n) (firstByte 6 info :: arg)
  | simple {n info : ℕ} {arg : Bytes} (h : Argument info (some n) arg) (hinfo : info ≤ 24) :
      Encoded (.simple n) (firstByte 7 info :: arg)
  | half {n : ℕ} {arg : Bytes} (h : Argument 25 (some n) arg) :
      Encoded (.double (.widen .half n)) (firstByte 7 25 :: arg)
  | single {n : ℕ} {arg : Bytes} (h : Argument 26 (some n) arg) :
      Encoded (.double (.widen .single n)) (firstByte 7 26 :: arg)
  | double {n : ℕ} {arg : Bytes} (h : Argument 27 (some n) arg) :
      Encoded (.double (.widen .double n)) (firstByte 7 27 :: arg)
  | stop : Encoded .stop [endMark]

/-! ### Contents -/

/-- The head of a string. -/
def StringKind.head : StringKind → Option ℕ → Head
  | .bytes => .bytes
  | .text => .text

/-- Whether the bytes may stand in a string: those of a text must be UTF-8. -/
def StringKind.Admits : StringKind → Bytes → Prop
  | .bytes, _ => True
  | .text, content => ∃ s, Utf8.encode s = content

/-- The content of a string of open length before its end mark: chunks that have a length, and
strings of open length again. -/
inductive Chunked (kind : StringKind) : Bytes → Bytes → Prop
  | nil : Chunked kind [] []
  | chunk {c content hd bs : Bytes} (hhd : (kind.head (some c.length)).Encoded hd)
      (hc : kind.Admits c) (h : Chunked kind content bs) :
      Chunked kind (c ++ content) (hd ++ (c ++ bs))
  | nested {inner content hd bs bs' : Bytes} (hhd : (kind.head none).Encoded hd)
      (hi : Chunked kind inner bs) (h : Chunked kind content bs') :
      Chunked kind (inner ++ content) (hd ++ (bs ++ endMark :: bs'))

/-- What stands after the head of a string. -/
inductive Content (kind : StringKind) : Option ℕ → Bytes → Bytes → Prop
  | whole {content : Bytes} (hc : kind.Admits content) :
      Content kind (some content.length) content content
  | openLength {content bs : Bytes} (hc : Chunked kind content bs) :
      Content kind none content (bs ++ [endMark])

/-- Elements one after the other. -/
inductive Elements {α : Type} (R : α → Bytes → Prop) : List α → Bytes → Prop
  | nil : Elements R [] []
  | cons {x : α} {xs : List α} {bs bs' : Bytes} (hx : R x bs) (hxs : Elements R xs bs') :
      Elements R (x :: xs) (bs ++ bs')

/-- What stands after the head of an array or a map. -/
inductive Contained {α : Type} (R : α → Bytes → Prop) : Option ℕ → List α → Bytes → Prop
  | counted {xs : List α} {bs : Bytes} (h : Elements R xs bs) : Contained R (some xs.length) xs bs
  | openLength {xs : List α} {bs : Bytes} (h : Elements R xs bs) :
      Contained R none xs (bs ++ [endMark])

/-- A key and a value. -/
inductive Paired {α : Type} (R : α → Bytes → Prop) : α × α → Bytes → Prop
  | mk {k v : α} {bs bs' : Bytes} (hk : R k bs) (hv : R v bs') : Paired R (k, v) (bs ++ bs')

/-- Whether the content of a tag is the byte string of a big number. -/
def IsBig (number : ℕ) (content : Bytes) : Prop :=
  (number = 2 ∨ number = 3) ∧
    ∃ n hd rest, n ≤ 16 ∧ (Head.bytes (some n)).Encoded hd ∧ content = hd ++ rest

/-- The items without parts. -/
inductive Flat : Item → Bytes → Prop
  | unsigned {n : ℕ} {hd : Bytes} (h : (Head.unsigned n).Encoded hd) : Flat (.int n) hd
  | negative {n : ℕ} {hd : Bytes} (h : (Head.negative n).Encoded hd) : Flat (.int (-1 - n)) hd
  | bytes {len : Option ℕ} {content hd bs : Bytes} (h : (Head.bytes len).Encoded hd)
      (hc : Content .bytes len content bs) : Flat (.bytes content) (hd ++ bs)
  | text {len : Option ℕ} {s : String} {hd bs : Bytes} (h : (Head.text len).Encoded hd)
      (hc : Content .text len (Utf8.encode s) bs) : Flat (.text s) (hd ++ bs)
  | simple {n : ℕ} {hd : Bytes} {item : Item} (h : (Head.simple n).Encoded hd)
      (hn : ofSimple? n = some item) : Flat item hd
  | double {x : Decimal.Double} {hd : Bytes} (h : (Head.double x).Encoded hd) :
      Flat (.double x) hd
  | big {number : ℕ} {hd hd' content : Bytes} {item : Item} (h : (Head.tag number).Encoded hd)
      (hnum : number = 2 ∨ number = 3) (h' : (Head.bytes (some content.length)).Encoded hd')
      (hlen : content.length ≤ 16) (hitem : bigNumber? number content = some item) :
      Flat item (hd ++ (hd' ++ content))

/-- The items with parts, where the parts are encoded as `R` says. -/
inductive Composed (R : Item → Bytes → Prop) : Item → Bytes → Prop
  | array {len : Option ℕ} {items : List Item} {hd bs : Bytes} (h : (Head.array len).Encoded hd)
      (hi : Contained R len items bs) : Composed R (.array items) (hd ++ bs)
  | map {len : Option ℕ} {entries : List (Item × Item)} {hd bs : Bytes}
      (h : (Head.map len).Encoded hd) (he : Contained (Paired R) len entries bs) :
      Composed R (.map entries) (hd ++ bs)
  | tag {number : ℕ} {content : Item} {hd bs : Bytes} (h : (Head.tag number).Encoded hd)
      (hbig : ¬ IsBig number bs) (hc : R content bs) :
      Composed R (.tag number content) (hd ++ bs)

/-- **The encodings of an item,** with parts nested at most `levels` deep. -/
def Item.Encoded : ℕ → Item → Bytes → Prop
  | 0, item, bs => Flat item bs
  | levels + 1, item, bs => Flat item bs ∨ Composed (Item.Encoded levels) item bs

end KnxIoT.Cbor
