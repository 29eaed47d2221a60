import Staging.Path
import Staging.Text.Blank
import Staging.Text.Utf8

/-!
Charsets of filtered resources. Reading never fails: bytes that stand for no character become the
replacement character. Writing never fails: characters the charset lacks become question marks.
-/
namespace Staging

inductive Charset where
  | utf8
  | latin1
  | ascii
  deriving DecidableEq, Repr

namespace Charset

def name : Charset → String
  | utf8 => "UTF-8"
  | latin1 => "ISO-8859-1"
  | ascii => "US-ASCII"

/-- A charset name without its accidents: no outer white space, no capitals, no underscores. -/
def plainName (s : String) : String :=
  String.ofList ((Text.lowerAscii (Text.trim s.toList)).map fun c => if c = '_' then '-' else c)

/-- The charset of a name, or the plain name that none has. -/
def ofName (s : String) : Except String Charset :=
  let plain := plainName s
  if plain ∈ ["utf-8", "utf8"] then .ok utf8
  else if plain ∈ ["iso-8859-1", "iso8859-1", "latin1", "latin-1"] then .ok latin1
  else if plain ∈ ["us-ascii", "ascii"] then .ok ascii
  else .error plain

def unsupportedMessage (plain : String) : String := "unsupported charset: " ++ plain

def decode : Charset → Bytes → List Char
  | utf8, bs => Utf8.decodeLossy bs
  | latin1, bs => bs.map fun b => Char.ofNat b.toNat
  | ascii, bs => bs.map fun b => if b.toNat < 0x80 then Char.ofNat b.toNat else Utf8.replacement

def questionMark : UInt8 := 0x3f

def encode : Charset → List Char → Bytes
  | utf8, cs => Utf8.encodeChars cs
  | latin1, cs => cs.map fun c => if c.toNat < 0x100 then UInt8.ofNat c.toNat else questionMark
  | ascii, cs => cs.map fun c => if c.toNat < 0x80 then UInt8.ofNat c.toNat else questionMark

end Charset

/-- The charset names of a project: one for property files, one for everything else. -/
structure Encodings where
  general : String := Charset.utf8.name
  properties : String := Charset.latin1.name
  deriving DecidableEq, Repr

/-- The charset name for a source file, by its extension. -/
def Encodings.forSource (e : Encodings) (source : Path) : String :=
  match source.extension.bind Spelling.text? with
  | some ext => if Text.lowerAscii ext.toList = "properties".toList then e.properties else e.general
  | none => e.general

end Staging
