import Streamkit.Json.Shape

/-!
# Results of a lookup

A record of a nickname, which may be missing, and of a result, a message or a number.
-/

namespace Streamkit.Json

/-- The shape of the nickname. -/
def nicknameShape : Shape Scalar := .maybe (.base .text)

/-- The shape of the result. -/
def resultShape : Shape Scalar := .either (.base .text) (.base .uint32)

/-- The codec of the record. -/
def lookupCodec : Codec (nicknameShape.Data Scalar.Data × resultShape.Data Scalar.Data) :=
  .fields "nickname" (nicknameShape.codec Scalar.codec) "result" (resultShape.codec Scalar.codec)

/-- Reads a text as the record; as a value, it is the list of its two fields. -/
def readLookup (text : String) : Option (Value × String) :=
  (readWith lookupCodec text).map fun ((nickname, result), written) =>
    (.list [nicknameShape.toValue Scalar.toValue nickname,
      resultShape.toValue Scalar.toValue result], written)

end Streamkit.Json
