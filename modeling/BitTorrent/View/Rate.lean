import BitTorrent.Json.Writer
import BitTorrent.Rate.Shaper

/-! Meters as JSON: totals, limits and speeds of both directions. -/

set_option autoImplicit false

namespace BitTorrent

instance : ToJson Meter where
  toJson meter := .record [("downloaded", meter.download.total), ("uploaded", meter.upload.total),
    ("limits", [meter.download.limit, meter.upload.limit]),
    ("rates", [meter.download.speed, meter.upload.speed])]

end BitTorrent
