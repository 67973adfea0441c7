set_option autoImplicit false
set_option relaxedAutoImplicit false

/-!
Media types that content can be recognised as.
-/

namespace LexiconCompiler.Mime

/-- The media types that give no warning. -/
def recognized : List String :=
  ["application/acad", "application/atom+xml", "application/autocad_dwg", "application/cbor",
   "application/dicom", "application/dwg", "application/epub+zip", "application/fits",
   "application/font-sfnt", "application/geo+json", "application/gml+xml", "application/gpx+xml",
   "application/gzip", "application/gzip-compressed", "application/gzipped", "application/jar",
   "application/jar-archive", "application/java-archive", "application/javascript",
   "application/json", "application/lzip", "application/marc", "application/msexcel",
   "application/mspowerpoint", "application/msword", "application/octet-stream",
   "application/ogg", "application/onenote", "application/owl+xml", "application/pdf",
   "application/photoshop", "application/pkcs7-signature", "application/postscript",
   "application/rss+xml", "application/rtf", "application/tzif", "application/vnd.adobe.xfdf",
   "application/vnd.android.package-archive", "application/vnd.apache.parquet",
   "application/vnd.apple.mpegurl", "application/vnd.debian.binary-package",
   "application/vnd.fdf", "application/vnd.garmin.tcx+xml",
   "application/vnd.google-earth.kml+xml", "application/vnd.google-earth.kmz",
   "application/vnd.lotus-1-2-3", "application/vnd.microsoft.portable-executable",
   "application/vnd.ms-cab-compressed", "application/vnd.ms-excel",
   "application/vnd.ms-fontobject", "application/vnd.ms-htmlhelp", "application/vnd.ms-outlook",
   "application/vnd.ms-package.3dmanufacturing-3dmodel+xml", "application/vnd.ms-powerpoint",
   "application/vnd.ms-publisher", "application/vnd.ms-visio.drawing.main+xml",
   "application/vnd.ms-word", "application/vnd.nintendo.snes.rom",
   "application/vnd.oasis.opendocument.chart", "application/vnd.oasis.opendocument.formula",
   "application/vnd.oasis.opendocument.graphics",
   "application/vnd.oasis.opendocument.graphics-template",
   "application/vnd.oasis.opendocument.presentation",
   "application/vnd.oasis.opendocument.presentation-template",
   "application/vnd.oasis.opendocument.spreadsheet",
   "application/vnd.oasis.opendocument.spreadsheet-template",
   "application/vnd.oasis.opendocument.text", "application/vnd.oasis.opendocument.text-template",
   "application/vnd.openxmlformats-officedocument.presentationml.presentation",
   "application/vnd.openxmlformats-officedocument.spreadsheetml.sheet",
   "application/vnd.openxmlformats-officedocument.wordprocessingml.document",
   "application/vnd.rn-realmedia-vbr", "application/vnd.shp", "application/vnd.shx",
   "application/vnd.sqlite3", "application/vnd.sun.xml.calc", "application/warc",
   "application/wasm", "application/x-7z-compressed", "application/x-acad", "application/x-amf",
   "application/x-archive", "application/x-autocad", "application/x-bittorrent",
   "application/x-bzip2", "application/x-chrome-extension", "application/x-coredump",
   "application/x-cpio", "application/x-dbf", "application/x-dwg", "application/x-elf",
   "application/x-executable", "application/x-font-ttf", "application/x-gunzip",
   "application/x-gzip", "application/x-gzip-compressed", "application/x-installshield",
   "application/x-java-applet", "application/x-java-archive", "application/x-javascript",
   "application/x-lzip", "application/x-mach-binary", "application/x-mobipocket-ebook",
   "application/x-ms-installer", "application/x-ms-reader", "application/x-ms-shortcut",
   "application/x-msaccess", "application/x-msi", "application/x-ndjson", "application/x-object",
   "application/x-ogg", "application/x-ole-storage", "application/x-parquet", "application/x-pdf",
   "application/x-python", "application/x-rar", "application/x-rar-compressed",
   "application/x-rpm", "application/x-ruby", "application/x-sh", "application/x-sharedlib",
   "application/x-shellscript", "application/x-shockwave-flash", "application/x-sqlite3",
   "application/x-srt", "application/x-subrip", "application/x-tar", "application/x-tcl",
   "application/x-unix-archive", "application/x-vnd.oasis.opendocument.chart",
   "application/x-vnd.oasis.opendocument.formula",
   "application/x-vnd.oasis.opendocument.graphics",
   "application/x-vnd.oasis.opendocument.graphics-template",
   "application/x-vnd.oasis.opendocument.presentation",
   "application/x-vnd.oasis.opendocument.presentation-template",
   "application/x-vnd.oasis.opendocument.spreadsheet",
   "application/x-vnd.oasis.opendocument.spreadsheet-template",
   "application/x-vnd.oasis.opendocument.text",
   "application/x-vnd.oasis.opendocument.text-template", "application/x-windows-installer",
   "application/x-xar", "application/x-xliff+xml", "application/x-xz", "application/x-zip",
   "application/x-zip-compressed", "application/xhtml+xml", "application/xml", "application/zip",
   "application/zstd", "audio/3gpp", "audio/3gpp2", "audio/aac", "audio/aiff", "audio/amr",
   "audio/amr-nb", "audio/ape", "audio/basic", "audio/flac", "audio/mid", "audio/midi",
   "audio/mp3", "audio/mp4", "audio/mpeg", "audio/mpegurl", "audio/musepack", "audio/ogg",
   "audio/qcelp", "audio/sp-midi", "audio/vnd.wave", "audio/wav", "audio/wave", "audio/webm",
   "audio/x-aiff", "audio/x-m4a", "audio/x-mid", "audio/x-midi", "audio/x-mp4a", "audio/x-mpeg",
   "audio/x-unknown", "audio/x-wav", "drawing/dwg", "font/collection", "font/otf", "font/sfnt",
   "font/ttf", "font/woff", "font/woff2", "gzip/document", "image/avif", "image/bmp", "image/bpg",
   "image/fits", "image/gif", "image/heic", "image/heic-sequence", "image/heif",
   "image/heif-sequence", "image/jp2", "image/jpeg", "image/jpm", "image/jpx", "image/jxl",
   "image/jxr", "image/jxs", "image/png", "image/svg+xml", "image/tiff",
   "image/vnd.adobe.photoshop", "image/vnd.djvu", "image/vnd.dwg", "image/vnd.mozilla.apng",
   "image/vnd.ms-photo", "image/vnd.radiance", "image/webp", "image/x-bmp", "image/x-dwg",
   "image/x-gimp-gbr", "image/x-gimp-pat", "image/x-icns", "image/x-icon", "image/x-ms-bmp",
   "image/x-portable-arbitrarymap", "image/x-portable-bitmap", "image/x-portable-graymap",
   "image/x-portable-pixmap", "image/x-psd", "image/x-xcf", "image/x-xpixmap", "model/gltf+json",
   "model/gltf-binary", "model/vnd.collada+xml", "model/x3d+xml", "text/calendar", "text/csv",
   "text/html", "text/javascript", "text/plain", "text/rss", "text/rtf",
   "text/tab-separated-values", "text/vcard", "text/vtt", "text/x-lua", "text/x-perl",
   "text/x-php", "text/x-python", "text/x-ruby", "text/x-script.python", "text/x-sh",
   "text/x-shellscript", "text/x-srt", "text/x-tcl", "text/xml", "video/3g2", "video/3gp",
   "video/3gpp", "video/3gpp2", "video/asf", "video/avi", "video/jpm", "video/mj2", "video/mp4",
   "video/mpeg", "video/msvideo", "video/ogg", "video/quicktime", "video/vnd.dvb.file",
   "video/webm", "video/x-flv", "video/x-m4v", "video/x-matroska", "video/x-ms-asf",
   "video/x-ms-wmv", "video/x-msvideo"]

/-- Whether a media type, in lower case, is a recognised one. -/
def isRecognized (mediaType : String) : Bool := recognized.contains mediaType

end LexiconCompiler.Mime
