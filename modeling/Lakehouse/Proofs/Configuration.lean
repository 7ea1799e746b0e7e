import Lakehouse.Proofs.Compilation
import Lakehouse.Proofs.Placeholder
import Lakehouse.Proofs.Provenance
/-!
The configuration file of a pipeline. Its document is encoded, and an encoded text has no placeholder,
so whatever the document says adds nothing to what the file says about other resources.
-/
namespace Lakehouse

open List Attempt

namespace Text.Base64

theorem symbol_ne_dollar (n : Nat) : symbol n ≠ '$' := by
  have hs : ∀ n < 64, symbol n ≠ '$' := by decide
  by_cases hn : n < 64
  case pos => exact hs n hn
  case neg =>
    have hl : ¬n < 26 ∧ ¬n < 52 ∧ ¬n < 62 ∧ n ≠ 62 := by omega
    simp [symbol, hl]

theorem symbols_dollar (octets : List UInt8) : '$' ∉ symbols octets := by
  fun_induction symbols octets <;> simp_all [(symbol_ne_dollar _).symm]

theorem encode_dollar (s : String) : '$' ∉ (encode s).toList := by
  rw [encode, String.toList_ofList]
  exact symbols_dollar _

theorem inText_encode (s : String) : Placeholder.inText (encode s) = [] :=
  eq_nil_iff_forall_not_mem.mpr fun _ h =>
    encode_dollar s <| (Placeholder.hasPlaceholder_of_mem_inText h).dollar_mem

end Text.Base64

theorem Resource.links_congr {r r' : Resource} (ho : r'.owner = r.owner)
    (hd : r'.dependsOn = r.dependsOn) (hp : r'.provider = r.provider)
    (hr : r'.referenceLinks = r.referenceLinks) : r'.links = r.links := by
  simp only [links, ownerLinks, explicitLinks, providerLinks, ho, hd, hp, hr]

namespace Pipeline

variable {c : Context} {p : Pipeline}

-- The configuration file, made of a node graph.
def configResource (c : Context) (p : Pipeline) (g : NodeGraph) : Resource :=
  c.primary (p.configId c) .workspaceFile
    [("path", .string (p.configPath c)),
     ("content_base64", .string (Text.Base64.encode (Json.pretty g.document)))]
    { Options.none with provider := p.options.provider }

theorem configFile_eq (g : NodeGraph) : p.configFile c g = (do
    let file := p.configResource c g
    return file :: (← Expansion.permissions file "workspace_file_path" "path"
      (p.accessControls.map (·.withLevel "CAN_READ")))) :=
  rfl

@[simp]
theorem configResource_id (g : NodeGraph) : (p.configResource c g).id = p.configId c :=
  rfl

@[simp]
theorem configResource_kind (g : NodeGraph) : (p.configResource c g).kind = .workspaceFile :=
  rfl

-- Another node graph makes other content, and nothing else.
theorem configResource_insert (g g' : NodeGraph) : p.configResource c g' =
    { p.configResource c g with
      properties := Dict.insert (p.configResource c g).properties "content_base64"
        (.string (Text.Base64.encode (Json.pretty g'.document))) } := by
  simp [configResource, Context.primary, Dict.insert]

-- The configuration file without its content.
def bareConfig (c : Context) (p : Pipeline) : Resource :=
  c.primary (p.configId c) .workspaceFile [("path", .string (p.configPath c))]
    { Options.none with provider := p.options.provider }

-- What the file says about other resources is not in its document.
theorem configResource_links (g : NodeGraph) : (p.configResource c g).links = (p.bareConfig c).links := by
  refine Resource.links_congr ?_ ?_ ?_ ?_ <;> simp only [configResource, bareConfig, Context.primary]
  simp [Resource.referenceLinks, Placeholder.scan, Placeholder.scanValue, Text.Base64.inText_encode]

end Pipeline

-- A resource without the content of a file.
def Resource.bare (r : Resource) : Resource :=
  if r.kind = .workspaceFile then
    { r with properties := Dict.eraseAll r.properties ["content_base64"] }
  else r

namespace Stack

variable {s : Stack} {x : Expansion} {r : Resource}

-- Without workspace files of its own, the files of a stack are the configuration files.
theorem bare_links (hx : s.expand = .ok x) (hw : s.resources.workspaceFiles = [])
    (hr : r ∈ x.resources) : r.links = r.bare.links := by
  cases makes_of_expand hx hr
  case provider h =>
    obtain ⟨_, _, h⟩ := bind_ok_iff.mp h
    cases h
    rfl
  case bound hb   => cases hb <;> rfl
  case primary hd _ hp =>
    cases hp
    case configFile    => exact Pipeline.configResource_links _
    case workspaceFile => simp [Sections.declarations, hw] at hd
    all_goals rfl

-- Whether it compiles can then be told without making the content of any file.
theorem compile_isOk_of_bare (hx : s.expand = .ok x) (hw : s.resources.workspaceFiles = [])
    (hn : (idsOf x.resources).Nodup)
    (hr : (Resolution.ofResources (x.resources.map Resource.bare)).toOption.isSome) :
    ∃ g, s.compile = .ok g := by
  refine compile_isOk_of_links hx hn ?_ hr
  rw [forall₂_map_left_iff, forall₂_same]
  refine fun r h => ⟨?_, bare_links hx hw h⟩
  rw [Resource.bare]
  split <;> rfl

end Stack

end Lakehouse
