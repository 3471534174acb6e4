/-
  Key extraction (`extractor.rs`): what a request is counted under.

  Addresses are bit vectors, and their texts are those of the standard library.
  The text that a key is digested to is a parameter of the extraction; the
  crate's own is `keyDigest`, over the 32 bytes that SHA-256 makes of a key.
-/
import ArmatureRatelimit.Lib.Texts

open Lib

namespace ArmatureRatelimit

/-! ## Digests -/

/-- The lowercase hexadecimal SHA-256 digest of a rate-limit key. -/
def keyDigest (sha256 : String → Vector (BitVec 8) 32) (key : String) : String :=
  String.ofList (Texts.hexText (sha256 key).toList)

section
variable {sha256 : String → Vector (BitVec 8) 32}

theorem keyDigest_length (key : String) : (keyDigest sha256 key).toList.length = 64 := by
  rw [keyDigest, String.toList_ofList, Texts.length_hexText, Vector.length_toList]

theorem mem_keyDigest {key : String} {c : Char} (h : c ∈ (keyDigest sha256 key).toList) :
    c ∈ Texts.hexDigits := by
  rw [keyDigest, String.toList_ofList] at h
  exact Texts.mem_hexText h

theorem keyDigest_inj {key key' : String} (h : keyDigest sha256 key = keyDigest sha256 key') :
    sha256 key = sha256 key' := by
  have hlist := congrArg String.toList h
  simp only [keyDigest, String.toList_ofList] at hlist
  exact Vector.toList_inj.mp (Texts.hexText_injective hlist)

end

/-! ## Addresses -/

abbrev Ipv4Addr := BitVec 32

abbrev Ipv6Addr := BitVec 128

inductive IpAddr
  | v4 (addr : Ipv4Addr)
  | v6 (addr : Ipv6Addr)
  deriving DecidableEq

/-- Four decimal octets. -/
def Ipv4Addr.toText (addr : Ipv4Addr) : String :=
  ".".intercalate ([24, 16, 8, 0].map fun i => toString (addr.extractLsb' i 8).toNat)

namespace Ipv6Addr

def segments (addr : Ipv6Addr) : List ℕ :=
  [112, 96, 80, 64, 48, 32, 16, 0].map fun i => (addr.extractLsb' i 16).toNat

/-- `to_ipv4_mapped`. -/
def toIpv4Mapped (addr : Ipv6Addr) : Option Ipv4Addr :=
  if addr.extractLsb' 32 96 = 0xffff then some (addr.extractLsb' 0 32) else none

/-- The first longest run of zero segments, as its start and length. -/
def zeroes (segments : List ℕ) : ℕ × ℕ :=
  (segments.zipIdx.foldl (fun (longest, current) (segment, i) =>
    if segment = 0 then
      let current := (if current.2 = 0 then i else current.1, current.2 + 1)
      (if longest.2 < current.2 then current else longest, current)
    else (longest, (0, 0))) ((0, 0), (0, 0))).1

/-- Hexadecimal segments between colons. -/
def hexText (segments : List ℕ) : String :=
  ":".intercalate (segments.map fun s => String.ofList (Nat.toDigits 16 s))

/-- Segments in hexadecimal, with a double colon in place of the zeroes. -/
def toText (addr : Ipv6Addr) : String :=
  match addr.toIpv4Mapped with
  | some v4 => "::ffff:" ++ v4.toText
  | none =>
    let run := zeroes addr.segments
    if 1 < run.2 then
      hexText (addr.segments.take run.1) ++ "::" ++ hexText (addr.segments.drop (run.1 + run.2))
    else hexText addr.segments

end Ipv6Addr

/-- The bucket identity of a client address. -/
def ipBucket (ip : IpAddr) : String :=
  match ip with
  | .v4 v4 => v4.toText
  | .v6 v6 =>
    match v6.toIpv4Mapped with
    | some v4 => v4.toText
    | none => Ipv6Addr.toText (v6 &&& (BitVec.allOnes 128 <<< 64)) ++ "/64"

example : ipBucket (.v6 0x20010db800010002aaaa000000000001) = "2001:db8:1:2::/64" := by
  decide

/-! ## Paths -/

/-- One turn of the loop over the segments of a path. -/
def pushSegment (segments : List (List Char)) (segment : List Char) : List (List Char) :=
  if segment = [] ∨ segment = ['.'] then segments
  else if segment = ['.', '.'] then segments.dropLast
  else segments ++ [segment]

/-- The segments that are left of a path, without its query and fragment. -/
def pathSegments (path : List Char) : List (List Char) :=
  ((path.takeWhile fun c => c != '?' && c != '#').splitOn '/').foldl pushSegment []

def normalizePath (path : String) : String :=
  String.ofList ('/' :: ['/'].intercalate (pathSegments path.toList))

example : normalizePath "/a//b/./c/../d?q=1" = "/a/b/d" := by decide

/-! ## Requests -/

structure RequestInfo where
  ip : Option IpAddr
  path : String
  userId : Option String
  headers : List (String × String)

/-- Header names are compared without the case of ASCII letters. -/
def RequestInfo.getHeader (info : RequestInfo) (name : String) : Option String :=
  (info.headers.find? fun h => h.1.map Char.toLower == name.map Char.toLower).map Prod.snd

inductive KeyExtractor
  | ip
  | userId
  | apiKey (headerName : String) (validator : String → Bool)
  | header (name : String)
  | ipAndPath
  | userIdAndPath

section
variable (keyDigest : String → String)

def apiKeyBucket (apiKey : String) : String := "apikey:" ++ keyDigest apiKey

def KeyExtractor.extract (self : KeyExtractor) (info : RequestInfo) : Option String :=
  match self with
  | .ip => info.ip.map ipBucket
  | .userId => info.userId
  | .apiKey headerName validator =>
    ((info.getHeader headerName).filter fun key => !key.isEmpty && validator key).map
      (apiKeyBucket keyDigest)
  | .header name => info.getHeader name
  | .ipAndPath => info.ip.map fun ip => ipBucket ip ++ ":" ++ normalizePath info.path
  | .userIdAndPath => info.userId.map fun uid => uid ++ ":" ++ normalizePath info.path

end

/-! ## Builders -/

structure KeyExtractorBuilder where
  extractors : List KeyExtractor
  fallbackToIp : Bool

namespace KeyExtractorBuilder

def new : KeyExtractorBuilder := ⟨[], true⟩

def withExtractor (extractor : KeyExtractor) (self : KeyExtractorBuilder) : KeyExtractorBuilder :=
  { self with extractors := self.extractors ++ [extractor] }

def preferUserId (self : KeyExtractorBuilder) : KeyExtractorBuilder := self.withExtractor .userId

def preferApiKey (headerName : String) (validator : String → Bool) (self : KeyExtractorBuilder) :
    KeyExtractorBuilder := self.withExtractor (.apiKey headerName validator)

def noIpFallback (self : KeyExtractorBuilder) : KeyExtractorBuilder :=
  { self with fallbackToIp := false }

/-- The extractors are tried in order, and then the address. -/
def build (keyDigest : String → String) (self : KeyExtractorBuilder) (info : RequestInfo) :
    Option String :=
  match self.extractors.findSome? fun extractor => extractor.extract keyDigest info with
  | some key => some key
  | none => if self.fallbackToIp then info.ip.map ipBucket else none

end KeyExtractorBuilder

end ArmatureRatelimit
