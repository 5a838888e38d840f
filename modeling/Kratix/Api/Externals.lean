import Kratix.Api.Types
import Kratix.Lib.Codec

/-!
# What Kratix takes from elsewhere

Hashing, compression, JSON, YAML and the selector parser of the client
library. Only the round trips of the encodings and the parser's treatment of
valid label maps are known of them.
-/

namespace Kratix

open Apiserver GoPath

/-- An entry of a `destination-selectors.yaml` document. -/
structure WorkflowDestinationSelectors where
  matchLabels : Labels
  directory : Path
  deriving DecidableEq

structure Externals where
  parser : SelectorParser
  /-- The hexadecimal MD5 digest of a text. -/
  computeHash : String → String
  computeHash_length : ∀ text, (computeHash text).toList.length = 32
  computeHash_alphanum : ∀ text, ∀ c ∈ (computeHash text).toList, c.isAlphanum = true
  /-- JSON of the specification of a Promise. -/
  promiseJson : PromiseSpec → String
  /-- MD5 digest of an object in a bucket. -/
  etag : Bytes → String
  compressContent : Bytes → Bytes
  decompressContent : Bytes → Option Bytes
  decompress_compress : ∀ content, decompressContent (compressContent content) = some content
  /-- The `destinationSelectors` entry of the scheduling ConfigMap. -/
  marshalScheduling : List WorkloadGroupScheduling → Bytes
  unmarshalScheduling : Bytes → Option (List WorkloadGroupScheduling)
  unmarshal_marshal : ∀ l, unmarshalScheduling (marshalScheduling l) = some l
  unmarshalSelectors : Bytes → Option (List WorkflowDestinationSelectors)
  /-- The list of file names kept in a `.kratix` state file. -/
  marshalStateFile : List Path → Bytes
  unmarshalStateFile : Bytes → Option (List Path)
  unmarshal_marshalStateFile : ∀ l, unmarshalStateFile (marshalStateFile l) = some l
  /-- A missing file counts as an empty one. -/
  unmarshalStateFile_nil : unmarshalStateFile [] = some []

variable (env : Externals)

/-- The selector of `labels.Parse(labels.FormatLabels(l))`. -/
def Externals.parseLabels (l : Labels) : Option Selector := env.parser.parse (formatLabels l)

theorem Externals.parseLabels_of_valid {l : Labels} (hne : l ≠ ∅) (hv : l.Valid) :
    env.parseLabels l = some (Selector.fromSet l) :=
  env.parser.parse_formatLabels l hne hv

/-! ### A choice of them

All that is assumed of the externals can be had at once; evaluations use this choice. -/

def schedulingCodec : Codec WorkloadGroupScheduling :=
  (Codec.stringMap.prod Codec.string).via (fun x => (x.matchLabels, x.source))
    (fun x => some ⟨x.1, x.2⟩) fun _ => rfl

def selectorsCodec : Codec WorkflowDestinationSelectors :=
  (Codec.stringMap.prod Codec.string.list).via (fun x => (x.matchLabels, x.directory))
    (fun x => some ⟨x.1, x.2⟩) fun _ => rfl

/-- The alphanumeric characters of a text, cut or filled up to 32. -/
def plainDigest (text : List Char) : List Char :=
  (text.filter Char.isAlphanum ++ List.replicate 32 '0').take 32

def plainExternals : Externals where
  parser := equalityParser
  computeHash text := String.ofList (plainDigest text.toList)
  computeHash_length text := by simp [plainDigest]
  computeHash_alphanum text := by
    intro c hc
    rw [String.toList_ofList] at hc
    rcases List.mem_append.mp (List.mem_of_mem_take hc) with h | h
    · exact (List.mem_filter.mp h).2
    · rw [List.eq_of_mem_replicate h]
      decide
  promiseJson spec := String.join (spec.workflows.promise.configure.map Pipeline.podSpec)
  etag content := String.ofList (content.map fun b => Char.ofNat b.toNat)
  compressContent := id
  decompressContent := some
  decompress_compress _ := rfl
  marshalScheduling := schedulingCodec.list.put
  unmarshalScheduling := schedulingCodec.list.decode
  unmarshal_marshal := schedulingCodec.list.decode_put
  unmarshalSelectors := selectorsCodec.list.decode
  marshalStateFile := Codec.string.list.list.put
  unmarshalStateFile content :=
    if content.isEmpty then some [] else Codec.string.list.list.decode content
  unmarshal_marshalStateFile l := by
    rw [if_neg (by simp [Codec.list, Codec.nat]), Codec.decode_put]
  unmarshalStateFile_nil := rfl

end Kratix
