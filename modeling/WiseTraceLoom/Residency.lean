import WiseTraceLoom.Tables

/-!
# Region routing

A tenant may be assigned a region, and a region a SQLite file.  `resolveEngine` says which file a
tenant's rows are written to: the default one if no region is configured, and an error, not the
default one, if the region has no file.
-/

set_option autoImplicit false

namespace WiseTraceLoom

/-- The region of a tenant, or of every tenant without one. -/
structure RegionConfig where
  /-- The tenant, `none` for the global row. -/
  tenantId : Option Str
  /-- The region. -/
  region : Str
  deriving DecidableEq

/-- What routing depends on. -/
structure Routing where
  /-- The path of the default store. -/
  defaultPath : Str
  /-- The rows of the configuration table. -/
  regionConfigs : List RegionConfig
  /-- The files of the registered regions, the latest registration first. -/
  regionDbPaths : List (Str × Str)

/-- `UnroutedRegionError`. -/
structure UnroutedRegionError where
  /-- The tenant. -/
  tenantId : Option Str
  /-- The region without a file. -/
  region : Str
  deriving DecidableEq

/-- The text of an `UnroutedRegionError`. -/
def UnroutedRegionError.message (e : UnroutedRegionError) : Str :=
  "tenant ".toList ++ (e.tenantId.map Text.repr).getD "None".toList ++
    " is routed to region ".toList ++ Text.repr e.region ++
    ", but no db path is registered for it — call register_region(".toList ++ Text.repr e.region ++
    ", <path>) before routing any tenant there".toList

namespace Routing

/-- `get_region_config`, read from the table: the tenant's row, else the global one. -/
def getRegionConfig (r : Routing) (tenantId : Option Str) : Option RegionConfig :=
  let own := tenantId.bind fun t ↦ r.regionConfigs.find? fun row ↦ row.tenantId = some t
  own.or (r.regionConfigs.find? fun row ↦ row.tenantId = none)

/-- `resolve_region`. -/
def resolveRegion (r : Routing) (tenantId : Option Str) : Option Str :=
  (r.getRegionConfig tenantId).map RegionConfig.region

/-- `get_region_db_path`. -/
def getRegionDbPath (r : Routing) (region : Str) : Option Str :=
  (r.regionDbPaths.find? fun p ↦ p.1 = region).map Prod.snd

/-- `resolve_engine`, an engine being given by the path of its file. -/
def resolveEngine (r : Routing) (tenantId : Option Str) : Except UnroutedRegionError Str :=
  match r.resolveRegion tenantId with
  | none => .ok r.defaultPath
  | some region =>
    match r.getRegionDbPath region with
    | none => .error ⟨tenantId, region⟩
    | some path => .ok path

end Routing

end WiseTraceLoom
