import PaymentsLab.Contracts.Enums

/-!
# Rail profiles

`shared/constants/payment_rails.py`: the provider and the minimum KYC level of every rail.
-/

namespace PaymentsLab

/-- `RailProfile`. -/
structure RailProfile where
  method : PaymentMethod
  providerSlug : String
  providerName : String
  minimumKycLevel : KycLevel
  deriving DecidableEq

/-- `get_rail_profile`, the lookup in `_RAIL_PROFILES`. -/
def getRailProfile : PaymentMethod → RailProfile
  | .pix => ⟨.pix, "pix", "pix-provider", .basic⟩
  | .boleto => ⟨.boleto, "boleto", "boleto-provider", .basic⟩
  | .ted => ⟨.ted, "ted", "ted-provider", .full⟩
  | .card => ⟨.card, "card", "card-provider", .basic⟩

def providerSlugForMethod (method : PaymentMethod) : String :=
  (getRailProfile method).providerSlug

def providerNameForMethod (method : PaymentMethod) : String :=
  (getRailProfile method).providerName

def providerConfirmPathForMethod (method : PaymentMethod) : String :=
  let slug := providerSlugForMethod method
  s!"/providers/{slug}/confirm"

def minimumKycLevelForMethod (method : PaymentMethod) : KycLevel :=
  (getRailProfile method).minimumKycLevel

def kycLevelRank : KycLevel → Nat
  | .none => 0
  | .basic => 1
  | .full => 2

end PaymentsLab
