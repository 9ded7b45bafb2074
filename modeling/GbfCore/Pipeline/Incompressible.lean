import GbfCore.Lib.Path

/-!
# Files that are not worth compressing (incompressible.go)

The writer decides by the name of a file whether to try the compressor.
-/

namespace GbfCore

/-- `incompressibleExts`. -/
def incompressibleExts : List String :=
  [".jpg", ".jpeg", ".png", ".gif", ".bmp", ".tiff", ".tif", ".webp", ".heic", ".heif",
    ".avif", ".ico", ".raw", ".cr2", ".nef", ".orf", ".arw", ".dng", ".rw2", ".psd", ".psb",
    ".mp4", ".avi", ".mkv", ".mov", ".wmv", ".flv", ".webm", ".m4v", ".mpg", ".mpeg", ".3gp",
    ".3g2", ".ts", ".mts", ".vob", ".m2ts", ".rm", ".rmvb", ".mp3", ".aac", ".flac", ".ogg",
    ".wma", ".m4a", ".wav", ".opus", ".aiff", ".alac", ".amr", ".ape", ".wv", ".tta", ".zip",
    ".zipx", ".rar", ".rar5", ".7z", ".gz", ".bz2", ".xz", ".zst", ".lz4", ".tar", ".tgz",
    ".lz", ".lzma", ".br", ".sz", ".cab", ".arj", ".ace", ".lha", ".lzh", ".arc", ".uha",
    ".kgb", ".z", ".zz", ".sit", ".sitx", ".brotli", ".iso", ".dmg", ".img", ".bin", ".nrg",
    ".mdf", ".mds", ".ccd", ".sub", ".vmdk", ".vdi", ".vhd", ".vhdx", ".qcow2", ".qcow",
    ".qed", ".ova", ".ovf", ".xva", ".wim", ".esd", ".squashfs", ".cramfs", ".gho", ".tib",
    ".tibx", ".vbk", ".vib", ".adi", ".fbk", ".sna", ".pdf", ".docx", ".xlsx", ".pptx",
    ".odt", ".ods", ".odp", ".doc", ".xls", ".ppt", ".epub", ".mobi", ".azw3", ".cbr",
    ".cbz", ".exe", ".dll", ".so", ".dylib", ".jar", ".war", ".apk", ".ipa", ".deb", ".rpm",
    ".pkg", ".msi", ".app", ".appx", ".msix", ".nupkg"]

/-- `incompressibleNames`. -/
def incompressibleNames : List String :=
  ["pagefile.sys", "hiberfil.sys", "swapfile.sys"]

/-- `isLikelyIncompressible`. -/
def isLikelyIncompressible (path : Bytes) : Bool :=
  (incompressibleExts.map ascii).contains (toLower (pathExt path)) ||
    (incompressibleNames.map ascii).contains (toLower (pathBase path))

end GbfCore
